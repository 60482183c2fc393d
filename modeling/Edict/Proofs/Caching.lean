import Edict.Interpreter
import Edict.Proofs.Building

namespace Edict

/-! # The cache is invisible

An interpreter that keeps instructions answers as one that builds each of them anew.  What it keeps
under a text is at all times what building the text would give (`Interpreter.Current`): whatever
changes the meaning of a name empties the cache, and the context that an instruction was first built
against has no part in it.  So two interpreters that know the same names do the same, however much
each of them has kept (`Interchangeable`), one command after the other.

Main statements:

* `interchangeable_step`: one command is answered alike and leaves the two interchangeable;
* `cache_invisible`: so is every run of commands, compared with a cache that keeps nothing.
-/

/-! ## What a cache keeps -/

namespace Cache

variable {α : Type}

/-- Making room adds no entry. -/
theorem find?_of_makeRoom {capacity : Nat} {entries : Table String α} {order : List String}
    {text : String} {a : α} (h : (makeRoom capacity entries order).1.find? text = some a) :
    entries.find? text = some a := by
  induction order generalizing entries with
  | nil =>
    rw [makeRoom] at h
    split at h
    · cases h
    · exact h
  | cons oldest order ih =>
    rw [makeRoom] at h
    split at h
    · have hkept := ih h
      rw [Table.find?_erase] at hkept
      split at hkept
      · cases hkept
      · exact hkept
    · exact h

/-- What is kept after a new entry is the new entry or was kept before. -/
theorem find?_insert_cases {c : Cache α} {text key : String} {a b : α}
    (h : (c.insert text a).find? key = some b) :
    (key = text ∧ b = a) ∨ c.find? key = some b := by
  unfold insert at h
  split at h
  · exact .inr h
  · have hfind : ((makeRoom c.capacity c.entries c.order).1.insert text a).find? key = some b := h
    rw [Table.find?_insert] at hfind
    split at hfind
    · next hkey =>
      cases hfind
      exact .inl ⟨hkey, rfl⟩
    · exact .inr (find?_of_makeRoom hfind)

end Cache

/-! ## Interpreters that can be exchanged -/

namespace Interpreter

variable {σ τ : Type} {i j : Interpreter σ τ}

/-- Every instruction that is kept is the one that its text gives now, built in whatever context
with room for a value. -/
def Current (i : Interpreter σ τ) : Prop :=
  ∀ text instruction, i.cache.find? text = some instruction →
    ∀ r : Runtime σ τ, r.context.stack.HasRoom → (i.build text).run r = (.ok instruction, r)

/-- The two build alike. -/
structure SameNames (i j : Interpreter σ τ) : Prop where
  functions : i.functions = j.functions
  modifiers : i.modifiers = j.modifiers
  optimizeOnBuild : i.optimizeOnBuild = j.optimizeOnBuild

/-- The two build alike and print to the same place, and what they keep is current. -/
structure Interchangeable (i j : Interpreter σ τ) : Prop where
  names : i.SameNames j
  output : i.output = j.output
  left : i.Current
  right : j.Current

/-- Interpreters with the same names find the same functions and modifiers, and build the same
instructions. -/
theorem function_eq (h : i.SameNames j) (name : String) : i.function name = j.function name := by
  rw [function, function, h.functions]

theorem modifiersOf_eq (h : i.SameNames j) (names : List String) :
    i.modifiersOf names = j.modifiersOf names := by
  induction names with
  | nil => rfl
  | cons name names ih => rw [modifiersOf, modifiersOf, h.modifiers, ih]

theorem finish_eq (h : i.SameNames j) (source : String) (f : Function σ τ) (parameters : List Node)
    (modifiers : List (Modifier σ τ)) :
    i.finish source f parameters modifiers = j.finish source f parameters modifiers := by
  rw [finish, finish, h.optimizeOnBuild]

theorem build_eq (h : i.SameNames j) (text : String) : i.build text = j.build text := by
  simp only [build, function_eq h, modifiersOf_eq h, finish_eq h]

/-- What is kept stays current as long as the names mean the same. -/
theorem Current.of_sameNames (hcurrent : i.Current) (h : i.SameNames j)
    (hcache : i.cache = j.cache) : j.Current := by
  intro text instruction hfind
  rw [← hcache] at hfind
  rw [← build_eq h]
  exact hcurrent text instruction hfind

/-- In an empty cache everything is current. -/
theorem current_of_empty (h : ∀ text, i.cache.find? text = none) : i.Current := by
  intro text instruction hfind
  rw [h text] at hfind
  cases hfind

/-- A new entry is current if it is what its text gives. -/
theorem Current.insert (hcurrent : i.Current) {text : String} {instruction : Instruction σ τ}
    (hbuild : ∀ r : Runtime σ τ, r.context.stack.HasRoom →
      (i.build text).run r = (.ok instruction, r)) :
    Current { i with cache := i.cache.insert text instruction } := by
  have hnames : i.SameNames { i with cache := i.cache.insert text instruction } := ⟨rfl, rfl, rfl⟩
  intro key kept hfind
  rw [← build_eq hnames]
  rcases Cache.find?_insert_cases hfind with ⟨rfl, rfl⟩ | hkept
  · exact hbuild
  · exact hcurrent key kept hkept

/-! ### Names that change

Whatever changes the meaning of a name forgets all that was kept. -/

/-- Nothing is kept that could be out of date. -/
theorem Interchangeable.of_empty (hnames : i.SameNames j) (houtput : i.output = j.output)
    (hi : ∀ text, i.cache.find? text = none) (hj : ∀ text, j.cache.find? text = none) :
    i.Interchangeable j :=
  ⟨hnames, houtput, current_of_empty hi, current_of_empty hj⟩

/-- Interpreters that cannot be told apart stay so when both forget what they keep. -/
theorem Interchangeable.clearCache (h : i.Interchangeable j) :
    i.clearCache.Interchangeable j.clearCache :=
  .of_empty ⟨h.names.functions, h.names.modifiers, h.names.optimizeOnBuild⟩ h.output
    (fun _ => rfl) (fun _ => rfl)

/-- They stay so when both get to know a function, or a modifier, or forget one; and what they say
to it is the same. -/
theorem Interchangeable.registerFunction (h : i.Interchangeable j) (f : Function σ τ) :
    (i.registerFunction f).1 = (j.registerFunction f).1 ∧
      (i.registerFunction f).2.Interchangeable (j.registerFunction f).2 := by
  unfold Interpreter.registerFunction
  constructor
  · rw [h.names.functions]
  · refine .of_empty ⟨?_, h.names.modifiers, h.names.optimizeOnBuild⟩ h.output (fun _ => rfl)
      (fun _ => rfl)
    simp only [h.names.functions]

theorem Interchangeable.registerModifier (h : i.Interchangeable j) (m : Modifier σ τ) :
    (i.registerModifier m).1 = (j.registerModifier m).1 ∧
      (i.registerModifier m).2.Interchangeable (j.registerModifier m).2 := by
  unfold Interpreter.registerModifier
  constructor
  · rw [h.names.modifiers]
  · refine .of_empty ⟨h.names.functions, ?_, h.names.optimizeOnBuild⟩ h.output (fun _ => rfl)
      (fun _ => rfl)
    simp only [h.names.modifiers]

/-- A name that means nothing can be removed without forgetting what was kept. -/
theorem Interchangeable.unregisterFunction (h : i.Interchangeable j) (name : String) :
    (i.unregisterFunction name).1 = (j.unregisterFunction name).1 ∧
      (i.unregisterFunction name).2.Interchangeable (j.unregisterFunction name).2 := by
  unfold Interpreter.unregisterFunction
  rw [h.names.functions]
  by_cases hknown : j.functions.contains name = true
  · rw [if_pos hknown, if_pos hknown]
    refine ⟨rfl, .of_empty ⟨?_, h.names.modifiers, h.names.optimizeOnBuild⟩ h.output
      (fun _ => rfl) (fun _ => rfl)⟩
    simp only
  · rw [if_neg hknown, if_neg hknown]
    exact ⟨rfl, h⟩

theorem Interchangeable.unregisterModifier (h : i.Interchangeable j) (name : String) :
    (i.unregisterModifier name).1 = (j.unregisterModifier name).1 ∧
      (i.unregisterModifier name).2.Interchangeable (j.unregisterModifier name).2 := by
  unfold Interpreter.unregisterModifier
  rw [h.names.modifiers]
  by_cases hknown : j.modifiers.contains name = true
  · rw [if_pos hknown, if_pos hknown]
    refine ⟨rfl, .of_empty ⟨h.names.functions, ?_, h.names.optimizeOnBuild⟩ h.output
      (fun _ => rfl) (fun _ => rfl)⟩
    simp only
  · rw [if_neg hknown, if_neg hknown]
    exact ⟨rfl, h⟩

end Interpreter

/-! ## Instructions that are kept or built -/

namespace Session

variable {σ τ α : Type}

open Interpreter

/-- An instruction that is kept is given out without being built. -/
theorem run_cachedInstruction_of_some {s : Session σ τ} {text : String}
    {instruction : Instruction σ τ} (h : s.interpreter.cache.find? text = some instruction) :
    (cachedInstruction text).run s = (.ok instruction, s) := by
  have hget : (get : SessionM σ τ (Session σ τ)).run s = (.ok s, s) := rfl
  rw [cachedInstruction, run_bind, hget]
  simp only [h]
  rfl

/-- One that is not is built, and kept if it can be. -/
theorem run_cachedInstruction_of_none {s : Session σ τ} {text : String}
    (h : s.interpreter.cache.find? text = none) :
    (cachedInstruction text).run s = match (call (s.interpreter.build text)).run s with
      | (.ok instruction, s') => (.ok instruction, { s' with
          interpreter.cache := s'.interpreter.cache.insert instruction.source instruction })
      | (.error e, s') => (.error e, s') := by
  have hget : (get : SessionM σ τ (Session σ τ)).run s = (.ok s, s) := rfl
  rw [cachedInstruction, run_bind, hget]
  simp only [h]
  rw [run_bind, hget]
  dsimp only
  rw [run_bind]
  rcases (call (s.interpreter.build text)).run s with ⟨e | instruction, s'⟩
  · rfl
  · rfl

/-- Whether it was kept or not, the instruction of a text is the one that building it gives, and
only the cache changes. -/
theorem run_cachedInstruction {i : Interpreter σ τ} (hcurrent : i.Current) {c : Context σ τ}
    (hroom : c.stack.HasRoom) (text : String) :
    ∃ cache, (cachedInstruction text).run ⟨i, c⟩
        = (((i.build text).run ⟨c, i.output⟩).1, ⟨{ i with cache }, c⟩) ∧
      Current { i with cache } := by
  rcases steady_build i text with ⟨outcome, hbuild⟩
  have hbuilt : (i.build text).run ⟨c, i.output⟩ = (outcome, ⟨c, i.output⟩) := hbuild _ hroom
  rw [hbuilt]
  cases hfind : i.cache.find? text with
  | some kept =>
    have hkept := hcurrent text kept hfind ⟨c, i.output⟩ hroom
    rw [hbuilt] at hkept
    cases hkept
    exact ⟨i.cache, run_cachedInstruction_of_some hfind, hcurrent⟩
  | none =>
    have hrun : (cachedInstruction text).run ⟨i, c⟩ = _ := run_cachedInstruction_of_none hfind
    rw [run_call hbuilt] at hrun
    cases outcome with
    | error e => exact ⟨i.cache, hrun, hcurrent⟩
    | ok instruction =>
      obtain rfl : instruction.source = text := source_of_build hbuilt
      exact ⟨i.cache.insert instruction.source instruction, hrun, hcurrent.insert hbuild⟩

/-- A step that interchangeable interpreters take alike: they answer the same, leave the same
context behind, and can be exchanged afterwards too. -/
def Exchanges (act : SessionM σ τ α) : Prop :=
  ∀ (i j : Interpreter σ τ) (c : Context σ τ), i.Interchangeable j → c.stack.HasRoom →
    ∃ outcome i' j' c', act.run ⟨i, c⟩ = (outcome, ⟨i', c'⟩) ∧
      act.run ⟨j, c⟩ = (outcome, ⟨j', c'⟩) ∧ i'.Interchangeable j'

/-- What is done with the instruction of a text is done to the same instruction. -/
theorem exchanges_instruction (text : String) (next : Instruction σ τ → CallM σ τ α) :
    Exchanges (do call (next (← cachedInstruction text))) := by
  intro i j c h hroom
  rcases run_cachedInstruction h.left hroom text with ⟨cache, hi, hcurrent⟩
  rcases run_cachedInstruction h.right hroom text with ⟨cache', hj, hcurrent'⟩
  have hsame : ((j.build text).run ⟨c, j.output⟩).1 = ((i.build text).run ⟨c, i.output⟩).1 := by
    rw [build_eq h.names, h.output]
  rw [hsame] at hj
  rw [run_bind, hi, run_bind, hj]
  have hnames : SameNames { i with cache } { j with cache := cache' } :=
    ⟨h.names.functions, h.names.modifiers, h.names.optimizeOnBuild⟩
  rcases ((i.build text).run ⟨c, i.output⟩).1 with e | instruction
  · exact ⟨.error e, _, _, c, rfl, rfl, ⟨hnames, h.output, hcurrent, hcurrent'⟩⟩
  · -- Both run it on the same context and print to the same place.
    rcases hnext : (next instruction).run ⟨c, i.output⟩ with ⟨outcome, r⟩
    have hnext' : (next instruction).run ⟨c, j.output⟩ = (outcome, r) := by
      rw [← h.output, hnext]
    refine ⟨outcome, _, _, r.context, run_call hnext, run_call hnext', ?_⟩
    constructor
    · exact ⟨hnames.functions, hnames.modifiers, hnames.optimizeOnBuild⟩
    · rfl
    · exact hcurrent.of_sameNames ⟨rfl, rfl, rfl⟩ rfl
    · exact hcurrent'.of_sameNames ⟨rfl, rfl, rfl⟩ rfl

variable [Observer σ τ]

/-- Running a text, and popping its result, cannot be told apart with a cache and without. -/
theorem exchanges_execute (text : String) : Exchanges (execute text : SessionM σ τ ValueInfo) :=
  exchanges_instruction text Instruction.execute

theorem exchanges_executeAs (t : NativeType σ) (text : String) :
    Exchanges (executeAs t text : SessionM σ τ t.Carrier) :=
  exchanges_instruction text (·.executeAs t)

end Session

/-! ## Commands -/

/-- What an interpreter is asked to do; `κ` names the contexts that it works on. -/
inductive Command (κ σ τ : Type) where
  | registerFunction (f : Function σ τ)
  | unregisterFunction (name : String)
  | registerModifier (m : Modifier σ τ)
  | unregisterModifier (name : String)
  | clearCache
  | execute (k : κ) (text : String)
  | executeAs (k : κ) (t : NativeType σ) (text : String)
  /-- The host changes a context on its own account, its stack and its selectors included. -/
  | change (k : κ) (f : Context σ τ → Context σ τ)

inductive Answer (σ : Type) where
  /-- Whether there was something of the name before. -/
  | known (before : Bool)
  | done
  /-- Where the result was left, or the error. -/
  | left (outcome : Except Error ValueInfo)
  /-- The result, or the error. -/
  | popped (t : NativeType σ) (outcome : Except Error t.Carrier)

/-- An interpreter and the contexts that it works on.  Each context belongs to a host, named by `ι`,
and the contexts of one host share its world. -/
structure Workspace (ι κ σ τ : Type) where
  interpreter : Interpreter σ τ
  hostOf : κ → ι
  worlds : ι → World σ
  contexts : κ → Context σ τ

/-- The context with the world as it is now. -/
def Context.within {σ τ : Type} (c : Context σ τ) (w : World σ) : Context σ τ :=
  { c with evaluator.machine.world := w }

namespace Workspace

variable {ι κ σ τ α : Type} [DecidableEq ι] [DecidableEq κ]

/-- The one of the contexts, in the world of its host. -/
def context (w : Workspace ι κ σ τ) (k : κ) : Context σ τ :=
  (w.contexts k).within (w.worlds (w.hostOf k))

/-- Puts a context back, and with it the world of its host. -/
def put (w : Workspace ι κ σ τ) (k : κ) (c : Context σ τ) : Workspace ι κ σ τ :=
  { w with
    worlds := Function.update w.worlds (w.hostOf k) c.evaluator.machine.world
    contexts := Function.update w.contexts k c }

/-- Takes a step with one of the contexts. -/
def onContext (k : κ) (act : SessionM σ τ α) (w : Workspace ι κ σ τ) :
    Except Error α × Workspace ι κ σ τ :=
  let (outcome, s) := act.run ⟨w.interpreter, w.context k⟩
  (outcome, { w.put k s.context with interpreter := s.interpreter })

variable [Observer σ τ]

def step (w : Workspace ι κ σ τ) : Command κ σ τ → Answer σ × Workspace ι κ σ τ
  | .registerFunction f =>
    let (before, interpreter) := w.interpreter.registerFunction f
    (.known before, { w with interpreter })
  | .unregisterFunction name =>
    let (before, interpreter) := w.interpreter.unregisterFunction name
    (.known before, { w with interpreter })
  | .registerModifier m =>
    let (before, interpreter) := w.interpreter.registerModifier m
    (.known before, { w with interpreter })
  | .unregisterModifier name =>
    let (before, interpreter) := w.interpreter.unregisterModifier name
    (.known before, { w with interpreter })
  | .clearCache => (.done, { w with interpreter := w.interpreter.clearCache })
  | .execute k text =>
    let (outcome, w) := w.onContext k (Session.execute text)
    (.left outcome, w)
  | .executeAs k t text =>
    let (outcome, w) := w.onContext k (Session.executeAs t text)
    (.popped t outcome, w)
  | .change k f => (.done, w.put k (f (w.context k)))

def run (w : Workspace ι κ σ τ) : List (Command κ σ τ) → List (Answer σ) × Workspace ι κ σ τ
  | [] => ([], w)
  | command :: commands =>
    let (answer, w) := w.step command
    let (answers, w) := w.run commands
    (answer :: answers, w)

/-- Whether there is room for a value in the context that the command runs an instruction
against. -/
def HasRoomFor (w : Workspace ι κ σ τ) : Command κ σ τ → Prop
  | .execute k _ => (w.contexts k).stack.HasRoom
  | .executeAs k _ _ => (w.contexts k).stack.HasRoom
  | _ => True

/-- Whether there is room for a value whenever an instruction starts to run. -/
def HasRoomForAll (w : Workspace ι κ σ τ) : List (Command κ σ τ) → Prop
  | [] => True
  | command :: commands => w.HasRoomFor command ∧ (w.step command).2.HasRoomForAll commands

/-- The same contexts in the same worlds, and interpreters that can be exchanged. -/
structure Interchangeable (w w' : Workspace ι κ σ τ) : Prop where
  interpreters : w.interpreter.Interchangeable w'.interpreter
  hostOf : w.hostOf = w'.hostOf
  worlds : w.worlds = w'.worlds
  contexts : w.contexts = w'.contexts

omit [Observer σ τ] in
/-- Whatever is put back into both is the same in both. -/
theorem Interchangeable.put {w w' : Workspace ι κ σ τ} (h : w.Interchangeable w')
    {i j : Interpreter σ τ} (hij : i.Interchangeable j) (k : κ) (c : Context σ τ) :
    Interchangeable { w.put k c with interpreter := i } { w'.put k c with interpreter := j } := by
  refine ⟨hij, h.hostOf, ?_, ?_⟩
  · show Function.update w.worlds (w.hostOf k) _ = Function.update w'.worlds (w'.hostOf k) _
    rw [h.worlds, h.hostOf]
  · show Function.update w.contexts k c = Function.update w'.contexts k c
    rw [h.contexts]

omit [Observer σ τ] [DecidableEq ι] [DecidableEq κ] in
/-- In such workspaces, every context is the same. -/
theorem Interchangeable.context_eq {w w' : Workspace ι κ σ τ} (h : w.Interchangeable w') (k : κ) :
    w.context k = w'.context k := by
  rw [context, context, h.contexts, h.worlds, h.hostOf]

omit [Observer σ τ] in
/-- Interpreters that can be exchanged take a step with the same context alike. -/
theorem onContext_of_exchanges {act : SessionM σ τ α} (hact : Session.Exchanges act)
    {w w' : Workspace ι κ σ τ} (h : w.Interchangeable w') {k : κ}
    (hroom : (w'.contexts k).stack.HasRoom) :
    (w.onContext k act).1 = (w'.onContext k act).1 ∧
      (w.onContext k act).2.Interchangeable (w'.onContext k act).2 := by
  have hroom' : (w'.context k).stack.HasRoom := hroom
  rcases hact _ _ (w'.context k) h.interpreters hroom' with ⟨outcome, i', j', c', hi, hj, hnext⟩
  unfold onContext
  rw [h.context_eq k, hi, hj]
  exact ⟨rfl, h.put hnext k c'⟩

/-- A command is answered alike, whatever has been kept before it. -/
theorem interchangeable_step {w w' : Workspace ι κ σ τ} (h : w.Interchangeable w')
    (command : Command κ σ τ) (hroom : w'.HasRoomFor command) :
    (w.step command).1 = (w'.step command).1 ∧
      (w.step command).2.Interchangeable (w'.step command).2 := by
  -- Changes of what is registered clear both caches; running a text is the case where they differ.
  cases command with
  | registerFunction f =>
    rcases h.interpreters.registerFunction f with ⟨hbefore, hnext⟩
    exact ⟨congrArg Answer.known hbefore, ⟨hnext, h.hostOf, h.worlds, h.contexts⟩⟩
  | unregisterFunction name =>
    rcases h.interpreters.unregisterFunction name with ⟨hbefore, hnext⟩
    exact ⟨congrArg Answer.known hbefore, ⟨hnext, h.hostOf, h.worlds, h.contexts⟩⟩
  | registerModifier m =>
    rcases h.interpreters.registerModifier m with ⟨hbefore, hnext⟩
    exact ⟨congrArg Answer.known hbefore, ⟨hnext, h.hostOf, h.worlds, h.contexts⟩⟩
  | unregisterModifier name =>
    rcases h.interpreters.unregisterModifier name with ⟨hbefore, hnext⟩
    exact ⟨congrArg Answer.known hbefore, ⟨hnext, h.hostOf, h.worlds, h.contexts⟩⟩
  | clearCache => exact ⟨rfl, ⟨h.interpreters.clearCache, h.hostOf, h.worlds, h.contexts⟩⟩
  | execute k text =>
    rcases onContext_of_exchanges (Session.exchanges_execute text) h hroom with ⟨houtcome, hnext⟩
    exact ⟨congrArg Answer.left houtcome, hnext⟩
  | executeAs k t text =>
    rcases onContext_of_exchanges (Session.exchanges_executeAs t text) h hroom with
      ⟨houtcome, hnext⟩
    exact ⟨congrArg (Answer.popped t) houtcome, hnext⟩
  | change k f =>
    refine ⟨rfl, ?_⟩
    show (w.put k (f (w.context k))).Interchangeable (w'.put k (f (w'.context k)))
    rw [h.context_eq k]
    exact h.put h.interpreters k _

/-- So is every run of commands. -/
theorem interchangeable_run {w w' : Workspace ι κ σ τ} (h : w.Interchangeable w')
    (commands : List (Command κ σ τ)) (hroom : w'.HasRoomForAll commands) :
    (w.run commands).1 = (w'.run commands).1 ∧
      (w.run commands).2.Interchangeable (w'.run commands).2 := by
  induction commands generalizing w w' with
  | nil => exact ⟨rfl, h⟩
  | cons command commands ih =>
    rcases hroom with ⟨hfirst, hrest⟩
    rcases interchangeable_step h command hfirst with ⟨hanswer, hnext⟩
    rcases ih hnext hrest with ⟨hanswers, hlast⟩
    refine ⟨?_, hlast⟩
    show (w.step command).1 :: ((w.step command).2.run commands).1 = _
    rw [hanswer, hanswers]
    rfl

end Workspace

/-- A fresh interpreter has kept nothing, whatever it may keep. -/
theorem Interpreter.interchangeable_ofConfig {σ τ : Type} (config : Config) (capacity : Nat) :
    (ofConfig config : Interpreter σ τ).Interchangeable
      (ofConfig { config with cacheCapacity := capacity }) :=
  .of_empty ⟨rfl, rfl, rfl⟩ rfl (fun _ => rfl) (fun _ => rfl)

/-- Whatever an interpreter is asked to do, and whatever the host does in between, it gives the same
answers as one that keeps no instructions, prints the same, and leaves the same contexts behind:
their stacks and their notes, and the worlds of the hosts with all that these may have written down
of what they were asked.  What it keeps is the instructions that building their texts would give
now.

There must be room for a value on the stack of a context whenever an instruction starts to run
against it; the state between two commands is covered by the run of the commands up to there. -/
theorem cache_invisible {ι κ σ τ : Type} [DecidableEq ι] [DecidableEq κ] [Observer σ τ]
    (config : Config) (hostOf : κ → ι) (worlds : ι → World σ) (contexts : κ → Context σ τ)
    (commands : List (Command κ σ τ))
    (hroom : Workspace.HasRoomForAll
      ⟨.ofConfig { config with cacheCapacity := 0 }, hostOf, worlds, contexts⟩ commands) :
    let kept := Workspace.run ⟨.ofConfig config, hostOf, worlds, contexts⟩ commands
    let built := Workspace.run
      ⟨.ofConfig { config with cacheCapacity := 0 }, hostOf, worlds, contexts⟩ commands
    kept.1 = built.1 ∧ kept.2.contexts = built.2.contexts ∧ kept.2.worlds = built.2.worlds ∧
      kept.2.interpreter.output = built.2.interpreter.output ∧ kept.2.interpreter.Current := by
  have hfirst : Workspace.Interchangeable ⟨.ofConfig config, hostOf, worlds, contexts⟩
      ⟨.ofConfig { config with cacheCapacity := 0 }, hostOf, worlds, contexts⟩ :=
    ⟨Interpreter.interchangeable_ofConfig config 0, rfl, rfl, rfl⟩
  rcases Workspace.interchangeable_run hfirst commands hroom with ⟨hanswers, hlast⟩
  exact ⟨hanswers, hlast.contexts, hlast.worlds, hlast.interpreters.output,
    hlast.interpreters.left⟩

/-- An instruction that was built against one of two contexts runs against the other, and the host
of both is asked what it would have been asked. -/
theorem cache_invisible_two_contexts :
    let scope : Scope (List String) :=
      { objects := {}
        selectors := [(⟨0⟩, .readOnly fun _ name => fun w =>
          (some (.int 1), { w with state := w.state ++ [name] }))]
        initializers := .empty }
    let world : World (List String) := ⟨[], 0⟩
    let contexts : Bool → Context (List String) (Option Journal) :=
      fun _ => ⟨⟨scope, 1, .empty, ⟨.ofSize ⟨4, 1⟩, world⟩⟩, none⟩
    let text := "Evaluate: x + 2 * 3"
    let commands : List (Command Bool (List String) (Option Journal)) :=
      [.executeAs true .int text, .executeAs false .int text]
    let start (capacity : Nat) : Workspace Unit Bool (List String) (Option Journal) :=
      ⟨.ofConfig { cacheCapacity := capacity }, fun _ => (), fun _ => world, contexts⟩
    let kept := (start 1).run commands
    let built := (start 0).run commands
    (start 0).HasRoomForAll commands ∧
      kept.2.interpreter.cache.size = 1 ∧ built.2.interpreter.cache.size = 0 ∧
      (built.2.worlds ()).state = ["x", "x"] ∧
      kept.1 = built.1 ∧ kept.2.contexts = built.2.contexts ∧ kept.2.worlds = built.2.worlds ∧
      kept.2.interpreter.output = built.2.interpreter.output ∧ kept.2.interpreter.Current := by
  intro scope world contexts text commands start kept built
  have hroom : (start 0).HasRoomForAll commands := by
    refine ⟨?_, ?_, trivial⟩
    · constructor <;> decide +kernel
    · constructor <;> decide +kernel
  have hkept : kept.2.interpreter.cache.size = 1 := by decide +kernel
  have hbuilt : built.2.interpreter.cache.size = 0 := by decide +kernel
  have hasked : (built.2.worlds ()).state = ["x", "x"] := by decide +kernel
  exact ⟨hroom, hkept, hbuilt, hasked,
    cache_invisible { cacheCapacity := 1 } (fun _ => ()) (fun _ => world) contexts commands hroom⟩

end Edict
