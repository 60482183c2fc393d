import Edict.Native.Function
import Edict.Proofs.Caching

namespace Edict

/-! # What the journal tells

An instruction is entered in the journal when it starts, and the entry is cleared when it completes;
one that fails on the way is not cleared.  So after any number of commands, the journal of a context
is told by the instructions that started against it alone, each of which completed or failed
(`Course`): the result it names is that of the last one that completed, and it names an instruction
as running if the last one that started has failed, until another one completes.

A function or a modifier that runs further instructions against its context, or puts another one in
its place, may write other entries.  It has no say in what a journal tells of an instruction that
completes; of what is left when one fails, the account is given for functions and modifiers that
leave the journal alone, as those of the library do.

Main statements:

* `tells_step`, `tells_run`: after an instruction that completed nothing is named as running,
  whatever its function has done to the journal;
* `journal_step`, `journal_run`: with functions that leave it alone, the journal is changed by the
  courses of instructions alone;
* `executing_run_iff`: between commands, no instruction is named as running just if the last one
  that started has completed.
-/

namespace CallM

variable {σ τ α β : Type}

/-! ## Steps that leave the journal alone -/

/-- Whatever its outcome, the step leaves the journal as it is. -/
def KeepsNotes (act : CallM σ τ α) : Prop :=
  ∀ r, (act.run r).2.context.notes = r.context.notes

theorem KeepsNotes.pure (a : α) : KeepsNotes (pure a : CallM σ τ α) := fun _ => rfl

theorem KeepsNotes.throw (e : Error) : KeepsNotes (throw e : CallM σ τ α) := fun _ => rfl

theorem KeepsNotes.ofOutcome (outcome : Except Error α) :
    KeepsNotes (ofOutcome outcome : CallM σ τ α) := fun _ => rfl

/-- Evaluation does not get at the notes. -/
theorem KeepsNotes.evaluate (act : EvalM σ α) : KeepsNotes (evaluate act : CallM σ τ α) := fun _ => rfl

theorem KeepsNotes.host (act : ExceptT Error (StateM (World σ)) α) :
    KeepsNotes (host act : CallM σ τ α) := fun _ => rfl

/-- Two steps that each keep the notes keep them together. -/
theorem KeepsNotes.bind {act : CallM σ τ α} {next : α → CallM σ τ β} (hact : KeepsNotes act)
    (hnext : ∀ a, KeepsNotes (next a)) : KeepsNotes (act >>= next) := by
  intro r
  have hfirst := hact r
  rw [run_bind]
  rcases hrun : act.run r with ⟨e | a, r'⟩
  · rw [hrun] at hfirst
    exact hfirst
  · rw [hrun] at hfirst
    exact (hnext a r').trans hfirst

theorem keepsNotes_throw_bind (e : Error) (next : α → CallM σ τ β) :
    KeepsNotes ((throw e : CallM σ τ α) >>= next) := fun _ => rfl

/-- Dropping values from the stack does not change the journal. -/
theorem journal_restoring (act : CallM σ τ α) (r : Runtime σ τ) :
    ((restoring act).run r).2.context.notes = (act.run r).2.context.notes := by
  rw [run_restoring]
  rcases act.run r with ⟨e | a, r'⟩
  · rfl
  · rfl

/-- Giving the stack back does not change the outcome. -/
theorem outcome_restoring (act : CallM σ τ α) (r : Runtime σ τ) :
    ((restoring act).run r).1 = (act.run r).1 := by
  rw [run_restoring]
  rcases act.run r with ⟨e | a, r'⟩
  · rfl
  · rfl

/-- Popping a result as a native type keeps the notes. -/
theorem keepsNotes_popAs (t : NativeType σ) (info : ValueInfo) :
    KeepsNotes (popAs t info : CallM σ τ t.Carrier) := by
  unfold popAs
  dsimp only
  split
  · exact (KeepsNotes.evaluate _).bind fun _ => keepsNotes_throw_bind _ _
  · refine (KeepsNotes.evaluate _).bind fun v => (KeepsNotes.host _).bind fun a? => ?_
    cases a? with
    | some a => exact .pure a
    | none => exact .throw _

end CallM

open CallM

variable {σ τ : Type}

/-- The function leaves the journal alone. -/
def Function.KeepsNotes (f : Function σ τ) : Prop := ∀ args, CallM.KeepsNotes (f.invoke args)

def Modifier.KeepsNotes (m : Modifier σ τ) : Prop := ∀ info, CallM.KeepsNotes (m.apply info)

/-! ### Functions and modifiers of the library -/

theorem keepsNotes_firstArgument (name : String) (args : List Node) :
    CallM.KeepsNotes (Function.firstArgument name args : CallM σ τ Node) := by
  cases args with
  | nil => exact .throw _
  | cons arg args => exact .pure _

/-- The functions and the modifier that the library brings along keep the notes. -/
theorem Function.keepsNotes_printer : (printer : Function σ τ).KeepsNotes := by
  intro args
  refine (keepsNotes_firstArgument "Print" args).bind fun arg => ?_
  refine (CallM.KeepsNotes.evaluate _).bind fun text => ?_
  intro r
  rfl

theorem Function.keepsNotes_evaluator : (evaluator : Function σ τ).KeepsNotes := by
  intro args
  exact (keepsNotes_firstArgument "Evaluate" args).bind fun arg => .evaluate _

theorem Modifier.keepsNotes_negator : (negator : Modifier σ τ).KeepsNotes := by
  intro info
  unfold negator
  dsimp only
  cases negation? info.kind with
  | none => exact .throw _
  | some op => exact .evaluate _

namespace Instruction

/-- The function and the modifiers leave the journal alone. -/
structure KeepsNotes (i : Instruction σ τ) : Prop where
  function : i.function.KeepsNotes
  modifiers : ∀ m ∈ i.modifiers, m.KeepsNotes

/-- Modifiers that keep the notes do so one after the other. -/
theorem keepsNotes_applyModifiers {modifiers : List (Modifier σ τ)}
    (h : ∀ m ∈ modifiers, m.KeepsNotes) (info : ValueInfo) :
    CallM.KeepsNotes (applyModifiers modifiers info) := by
  induction modifiers generalizing info with
  | nil => exact .pure _
  | cons m modifiers ih =>
    have hfirst : m.KeepsNotes := h m List.mem_cons_self
    have hrest : ∀ m' ∈ modifiers, m'.KeepsNotes :=
      fun m' hm' => h m' (List.mem_cons_of_mem m hm')
    exact (hfirst info).bind fun info' => ih hrest info'

end Instruction

/-! ## The course of an instruction -/

/-- How an instruction that started has ended. -/
inductive Course where
  /-- It has left a result. -/
  | completed (info : ValueInfo)
  /-- Its function, an argument or a modifier has failed. -/
  | failed (source : String)
deriving DecidableEq, Repr

namespace Course

def info? : Course → Option ValueInfo
  | completed info => some info
  | failed _ => none

/-- The text of the instruction, if it has failed. -/
def source? : Course → Option String
  | completed _ => none
  | failed source => some source

def enter (journal : Journal) : Course → Journal
  | completed info => ⟨none, some info⟩
  | failed source => { journal with executing? := some source }

/-- The journal of a context, if it has one, after instructions that ended like this. -/
def enterAll (courses : List Course) (journal? : Option Journal) : Option Journal :=
  journal?.map fun journal => courses.foldl enter journal

theorem enterAll_nil (journal? : Option Journal) : enterAll [] journal? = journal? := by
  cases journal? with
  | none => rfl
  | some journal => rfl

/-- Entries are made in the order in which the instructions run. -/
theorem enterAll_append (courses courses' : List Course) (journal? : Option Journal) :
    enterAll (courses ++ courses') journal? = enterAll courses' (enterAll courses journal?) := by
  simp only [enterAll, List.foldl_append, Option.map_map, Function.comp_def]

/-- What a journal tells is told by the last instruction and by the last one that completed. -/
theorem enterAll_blank (courses : List Course) :
    enterAll courses (some .blank)
      = some ⟨courses.getLast?.bind source?, (courses.filterMap info?).getLast?⟩ := by
  induction courses using List.reverseRecOn with
  | nil => rfl
  | append_singleton courses course ih =>
    rw [enterAll_append, ih, List.getLast?_concat, List.filterMap_append]
    cases course with
    | completed info => simp [enterAll, enter, info?, source?]
    | failed source => simp [enterAll, enter, info?, source?]

/-- What the journal that is left tells, whatever a function may have written into it: if an
instruction completed, that nothing runs and where its result is, and if none started, what it told
before. -/
def Tells : Option Course → Option Journal → Option Journal → Prop
  | none, before, left => left = before
  | some (completed info), _, left => ∀ journal, left = some journal → journal = ⟨none, some info⟩
  | some (failed _), _, _ => True

variable {first? : Option Course} {courses : List Course}
  {journal? journal?' journal?'' : Option Journal}

/-- The last instruction that started decides what is told. -/
theorem Tells.append (hfirst : Tells first? journal? journal?')
    (hrest : Tells courses.getLast? journal?' journal?'') :
    Tells (first?.toList ++ courses).getLast? journal? journal?'' := by
  cases courses with
  | nil =>
    have hsame : journal?'' = journal?' := hrest
    rw [List.append_nil, hsame]
    cases first? with
    | none => exact hfirst
    | some course => exact hfirst
  | cons course courses =>
    have hlast := List.getLast?_eq_some_getLast (List.cons_ne_nil course courses)
    rw [List.getLast?_append, hlast, Option.some_or]
    rw [hlast] at hrest
    -- what the journal told before does not count once an instruction has started
    generalize (course :: courses).getLast (List.cons_ne_nil course courses) = last at hrest
    cases last with
    | completed info => exact hrest
    | failed source => exact trivial

end Course

namespace Instruction

variable {i : Instruction σ Notes}

/-- How the instruction ends. -/
def course (i : Instruction σ Notes) (r : Runtime σ Notes) : Course :=
  match (i.execute.run r).1 with
  | .ok info => .completed info
  | .error _ => .failed i.source

/-- The instruction without its entries in the journal. -/
def body (i : Instruction σ Notes) : CallM σ Notes ValueInfo := do
  applyModifiers i.modifiers (← i.function.invoke i.parameters)

/-- The entry before an instruction runs. -/
def begin (i : Instruction σ Notes) (r : Runtime σ Notes) : Runtime σ Notes :=
  { r with
    context.notes := r.context.notes.map fun j => { j with executing? := some i.source } }

/-- An instruction is its body, with an entry before it and, unless it fails, one behind it. -/
theorem run_eq (i : Instruction σ Notes) (r : Runtime σ Notes) :
    i.run.run r = match i.body.run (i.begin r) with
      | (.ok info, r') => (.ok info, { r' with
          context.notes := r'.context.notes.map fun _ => ⟨none, some info⟩ })
      | (.error e, r') => (.error e, r') := by
  have hbegin : (ExceptT.lift (Observer.begun i) : CallM σ Notes Unit).run r
      = (.ok (), i.begin r) := rfl
  have hrun : i.run = (do
      ExceptT.lift (Observer.begun i)
      let info ← i.body
      ExceptT.lift (Observer.completed i info)
      return info) := by
    simp only [run, body, bind_assoc]
  rw [hrun, run_bind, hbegin]
  dsimp only
  rw [run_bind]
  rcases i.body.run (i.begin r) with ⟨e | info, r'⟩
  · rfl
  · rfl

/-- An instruction that completes is named as running no more, and its result is named; this is so
whatever its function does to the journal. -/
theorem journal_of_completed {r r' : Runtime σ Notes} {info : ValueInfo} {journal : Journal}
    (h : i.execute.run r = (.ok info, r')) (hjournal : r'.context.notes = some journal) :
    journal = ⟨none, some info⟩ := by
  have houtcome : (i.run.run r).1 = .ok info := by
    rw [← outcome_restoring, ← execute, h]
  have hentry : (i.run.run r).2.context.notes = some journal := by
    rw [← journal_restoring, ← execute, h, hjournal]
  rw [run_eq] at houtcome hentry
  rcases hbody : i.body.run (i.begin r) with ⟨e | info', r''⟩
  · rw [hbody] at houtcome
    cases houtcome
  · rw [hbody] at houtcome hentry
    cases houtcome
    rcases Option.map_eq_some_iff.mp hentry with ⟨_, -, rfl⟩
    rfl

/-- What is told after an instruction is told by its course. -/
theorem tells_execute (i : Instruction σ Notes) (r : Runtime σ Notes) :
    Course.Tells (i.course r) r.context.notes (i.execute.run r).2.context.notes := by
  rw [course]
  rcases hrun : i.execute.run r with ⟨e | info, r'⟩
  · exact trivial
  · intro journal hjournal
    exact journal_of_completed hrun hjournal

/-- Popping the result as a native type, which may be the wrong one, comes after that. -/
theorem tells_executeAs (i : Instruction σ Notes) (t : NativeType σ) (r : Runtime σ Notes) :
    Course.Tells (i.course r) r.context.notes ((i.executeAs t).run r).2.context.notes := by
  have htells := i.tells_execute r
  rw [executeAs, run_bind]
  rcases hrun : i.execute.run r with ⟨e | info, r'⟩
  · rw [hrun] at htells
    exact htells
  · rw [hrun] at htells
    dsimp only
    rw [keepsNotes_popAs t info r']
    exact htells

/-- An instruction changes the journal as its course says. -/
theorem journal_execute (h : i.KeepsNotes) (r : Runtime σ Notes) :
    (i.execute.run r).2.context.notes
      = Course.enterAll [i.course r] r.context.notes := by
  have hbody : CallM.KeepsNotes i.body :=
    (h.function i.parameters).bind fun info => keepsNotes_applyModifiers h.modifiers info
  have hkeeps := hbody (i.begin r)
  rw [course, execute, outcome_restoring, journal_restoring, run_eq]
  rcases hrun : i.body.run (i.begin r) with ⟨e | info, r'⟩
  · rw [hrun] at hkeeps
    exact hkeeps
  · rw [hrun] at hkeeps
    dsimp only at hkeeps ⊢
    rw [hkeeps, begin, Option.map_map]
    rfl

/-- Popping the result of an instruction leaves the entries that it made. -/
theorem journal_executeAs (h : i.KeepsNotes) (t : NativeType σ) (r : Runtime σ Notes) :
    ((i.executeAs t).run r).2.context.notes
      = Course.enterAll [i.course r] r.context.notes := by
  rw [← journal_execute h, executeAs, run_bind]
  rcases i.execute.run r with ⟨e | info, r'⟩
  · rfl
  · exact keepsNotes_popAs t info r'

end Instruction

/-! ## Building -/

/-- All that the interpreter knows or has kept leaves the journal alone. -/
structure Interpreter.KeepsNotes (i : Interpreter σ τ) : Prop where
  functions : ∀ name f, i.functions.find? name = some f → f.KeepsNotes
  modifiers : ∀ name m, i.modifiers.find? name = some m → m.KeepsNotes
  kept : ∀ text instruction, i.cache.find? text = some instruction → instruction.KeepsNotes

namespace Interpreter

variable {i : Interpreter σ τ}

/-- A function that is found by its name is one that was registered. -/
theorem keepsNotes_of_function (h : i.KeepsNotes) {name : String} {f : Function σ τ}
    (hf : i.function name = .ok f) : f.KeepsNotes := by
  unfold function at hf
  split at hf
  · next f' hfind =>
    cases hf
    exact h.functions name f hfind
  · cases hf

/-- Modifiers that are found by their names are ones that were registered. -/
theorem keepsNotes_of_modifiersOf (h : i.KeepsNotes) {names : List String}
    {ms : List (Modifier σ τ)} (hms : i.modifiersOf names = .ok ms) :
    ∀ m ∈ ms, m.KeepsNotes := by
  induction names generalizing ms with
  | nil =>
    cases hms
    simp
  | cons name names ih =>
    rw [modifiersOf] at hms
    split at hms
    · cases hms
    · next m hfind =>
      rcases bind_eq_ok_iff.1 hms with ⟨rest, hrest, hms⟩
      cases hms
      intro m' hm'
      rcases List.mem_cons.mp hm' with rfl | hm'
      · exact h.modifiers name m' hfind
      · exact ih hrest m' hm'

/-- Folding is evaluation, and so keeps the notes. -/
theorem keepsNotes_optimize (instruction : Instruction σ τ) :
    CallM.KeepsNotes instruction.optimize := by
  unfold Instruction.optimize
  split
  · exact .pure _
  · exact (CallM.KeepsNotes.evaluate _).bind fun _ => .pure _

/-- Building writes nothing into the journal. -/
theorem keepsNotes_build (i : Interpreter σ τ) (text : String) :
    CallM.KeepsNotes (i.build text) := by
  refine (CallM.KeepsNotes.ofOutcome _).bind fun parts => ?_
  unfold finish
  dsimp only
  split
  · exact keepsNotes_optimize _
  · exact .pure _

/-- Folding changes neither the function nor the modifiers. -/
theorem keepsNotes_of_optimize {instruction optimized : Instruction σ τ} {r r' : Runtime σ τ}
    (h : instruction.KeepsNotes) (hoptimize : instruction.optimize.run r = (.ok optimized, r')) :
    optimized.KeepsNotes := by
  unfold Instruction.optimize at hoptimize
  split at hoptimize
  · cases hoptimize
    exact h
  · rcases run_bind_ok hoptimize with ⟨folded, r'', -, hrest⟩
    cases hrest
    exact ⟨h.function, h.modifiers⟩

/-- What is built is made of what the interpreter knows. -/
theorem keepsNotes_of_build (h : i.KeepsNotes) {text : String} {instruction : Instruction σ τ}
    {r r' : Runtime σ τ} (hbuild : (i.build text).run r = (.ok instruction, r')) :
    instruction.KeepsNotes := by
  rcases run_bind_ok hbuild with ⟨⟨f, parsed, modifiers⟩, r'', hparts, hfinish⟩
  have hnames : f.KeepsNotes ∧ ∀ m ∈ modifiers, m.KeepsNotes := by
    have houtcome := congrArg Prod.fst hparts
    rcases bind_eq_ok_iff.1 houtcome with ⟨tokens, -, hrest⟩
    rcases bind_eq_ok_iff.1 hrest with ⟨parsed', -, hrest⟩
    rcases bind_eq_ok_iff.1 hrest with ⟨f', hf, hrest⟩
    rcases bind_eq_ok_iff.1 hrest with ⟨modifiers', hmodifiers, hrest⟩
    cases hrest
    exact ⟨keepsNotes_of_function h hf, keepsNotes_of_modifiersOf h hmodifiers⟩
  unfold finish at hfinish
  dsimp only at hfinish
  split at hfinish
  · refine keepsNotes_of_optimize ?_ hfinish
    exact ⟨hnames.1, hnames.2⟩
  · cases hfinish
    exact ⟨hnames.1, hnames.2⟩

end Interpreter

/-! ## Sessions -/

namespace Session

variable {α : Type}

/-- How the instruction of a text ends, if there is one: it may be that none can be built. -/
def course? (text : String) (s : Session σ Notes) : Option Course :=
  match (cachedInstruction text).run s with
  | (.ok instruction, s') => some (instruction.course ⟨s'.context, s'.interpreter.output⟩)
  | (.error _, _) => none

/-- To get the instruction of a text changes no journal. -/
theorem journal_cachedInstruction (text : String) (s : Session σ Notes) :
    ((cachedInstruction text).run s).2.context.notes = s.context.notes := by
  cases hfind : s.interpreter.cache.find? text with
  | some kept => rw [run_cachedInstruction_of_some hfind]
  | none =>
    have hjournal := s.interpreter.keepsNotes_build text ⟨s.context, s.interpreter.output⟩
    rw [run_cachedInstruction_of_none hfind]
    rcases hbuild : (s.interpreter.build text).run ⟨s.context, s.interpreter.output⟩ with
      ⟨e | built, r⟩
    · rw [run_call hbuild]
      rw [hbuild] at hjournal
      exact hjournal
    · rw [run_call hbuild]
      rw [hbuild] at hjournal
      exact hjournal

/-- Where all that is known leaves the journal alone, the instruction of a text does. -/
theorem keepsNotes_cachedInstruction {s s' : Session σ Notes} {text : String}
    {outcome : Except Error (Instruction σ Notes)} (h : s.interpreter.KeepsNotes)
    (hrun : (cachedInstruction text).run s = (outcome, s')) :
    s'.interpreter.KeepsNotes ∧
      ∀ instruction, outcome = .ok instruction → instruction.KeepsNotes := by
  cases hfind : s.interpreter.cache.find? text with
  | some kept =>
    rw [run_cachedInstruction_of_some hfind] at hrun
    cases hrun
    refine ⟨h, fun instruction houtcome => ?_⟩
    cases houtcome
    exact h.kept text kept hfind
  | none =>
    rw [run_cachedInstruction_of_none hfind] at hrun
    rcases hbuild : (s.interpreter.build text).run ⟨s.context, s.interpreter.output⟩ with
      ⟨e | built, r⟩
    · rw [run_call hbuild] at hrun
      cases hrun
      exact ⟨⟨h.functions, h.modifiers, h.kept⟩, by simp⟩
    · rw [run_call hbuild] at hrun
      cases hrun
      have hbuilt : built.KeepsNotes := Interpreter.keepsNotes_of_build h hbuild
      refine ⟨⟨h.functions, h.modifiers, ?_⟩, ?_⟩
      · -- What is kept now is the new instruction or was kept before.
        intro key instruction hkey
        rcases Cache.find?_insert_cases hkey with ⟨-, rfl⟩ | hkept
        · exact hbuilt
        · exact h.kept key instruction hkept
      · intro instruction houtcome
        cases houtcome
        exact hbuilt

/-- Something is done with the instruction of a text: there is none, or the instruction takes its
course with the journal as it was. -/
theorem run_instruction_cases {s s' : Session σ Notes} {text : String} {outcome : Except Error α}
    {next : Instruction σ Notes → CallM σ Notes α}
    (hrun : (do call (next (← cachedInstruction text))).run s = (outcome, s')) :
    (course? text s = none ∧ s'.context.notes = s.context.notes ∧
      ∃ e, (cachedInstruction text).run s = (.error e, s') ∧ outcome = .error e) ∨
    ∃ i s₁ r r', (cachedInstruction text).run s = (.ok i, s₁) ∧
      course? text s = some (i.course r) ∧ r.context.notes = s.context.notes ∧
      (next i).run r = (outcome, r') ∧
      s' = ⟨{ s₁.interpreter with output := r'.output }, r'.context⟩ := by
  have hjournal := journal_cachedInstruction text s
  rw [run_bind] at hrun
  rw [course?]
  rcases hcached : (cachedInstruction text).run s with ⟨e | i, s₁⟩
  · rw [hcached] at hrun hjournal
    cases hrun
    exact .inl ⟨rfl, hjournal, e, rfl, rfl⟩
  · rw [hcached] at hrun hjournal
    dsimp only at hrun
    rcases hstep : (next i).run ⟨s₁.context, s₁.interpreter.output⟩ with ⟨result, r'⟩
    rw [run_call hstep] at hrun
    cases hrun
    exact .inr ⟨i, s₁, _, r', rfl, rfl, hjournal, hstep, rfl⟩

/-- What is told after something was done with the instruction of a text, if it is told by the
course of the instruction. -/
theorem tells_instruction {next : Instruction σ Notes → CallM σ Notes α}
    (hnext : ∀ (i : Instruction σ Notes) r,
      Course.Tells (i.course r) r.context.notes ((next i).run r).2.context.notes)
    (text : String) (s : Session σ Notes) :
    Course.Tells (course? text s) s.context.notes
      ((do call (next (← cachedInstruction text)) : SessionM σ Notes α).run s).2.context.notes := by
  rcases hrun : (do call (next (← cachedInstruction text)) : SessionM σ Notes α).run s with
    ⟨outcome, s'⟩
  rcases run_instruction_cases hrun with
    ⟨hcourse, hjournal, -⟩ | ⟨i, s₁, r, r', -, hcourse, hjournal, hstep, rfl⟩
  · rw [hcourse]
    exact hjournal
  · have htells := hnext i r
    rw [hstep, hjournal] at htells
    rw [hcourse]
    exact htells

/-- What a request to run a text writes down is the entries of the instruction that the text stands
for, if there is one. -/
theorem tells_execute (text : String) (s : Session σ Notes) :
    Course.Tells (course? text s) s.context.notes ((execute text).run s).2.context.notes :=
  tells_instruction Instruction.tells_execute text s

theorem tells_executeAs (t : NativeType σ) (text : String) (s : Session σ Notes) :
    Course.Tells (course? text s) s.context.notes
      ((executeAs t text).run s).2.context.notes :=
  tells_instruction (fun i r => i.tells_executeAs t r) text s

/-- Whatever is done with the instruction of a text, if it changes the journal as its course says,
the journal is changed by that course or, if there is none, not at all. -/
theorem journal_instruction {s s' : Session σ Notes} {text : String} {outcome : Except Error α}
    {next : Instruction σ Notes → CallM σ Notes α} (h : s.interpreter.KeepsNotes)
    (hnext : ∀ i r, Instruction.KeepsNotes i →
      ((next i).run r).2.context.notes = Course.enterAll [i.course r] r.context.notes)
    (hrun : (do call (next (← cachedInstruction text))).run s = (outcome, s')) :
    s'.context.notes = Course.enterAll (course? text s).toList s.context.notes ∧
      s'.interpreter.KeepsNotes := by
  rcases run_instruction_cases hrun with
    ⟨hcourse, hjournal, e, hcached, -⟩ | ⟨i, s₁, r, r', hcached, hcourse, hjournal, hstep, rfl⟩
  · rcases keepsNotes_cachedInstruction h hcached with ⟨hinterpreter, -⟩
    rw [hcourse, hjournal]
    exact ⟨(Course.enterAll_nil _).symm, hinterpreter⟩
  · rcases keepsNotes_cachedInstruction h hcached with ⟨hinterpreter, hkeeps⟩
    have hentered := hnext i r (hkeeps i rfl)
    rw [hstep, hjournal] at hentered
    rw [hcourse]
    exact ⟨hentered, ⟨hinterpreter.functions, hinterpreter.modifiers, hinterpreter.kept⟩⟩

/-- With functions and modifiers that keep the notes, a request writes down just that, and the
interpreter stays one with such functions and modifiers. -/
theorem journal_execute {s s' : Session σ Notes} {text : String} {outcome : Except Error ValueInfo}
    (h : s.interpreter.KeepsNotes) (hrun : (execute text).run s = (outcome, s')) :
    s'.context.notes = Course.enterAll (course? text s).toList s.context.notes ∧
      s'.interpreter.KeepsNotes :=
  journal_instruction h (fun _ r hi => Instruction.journal_execute hi r) hrun

theorem journal_executeAs {s s' : Session σ Notes} {t : NativeType σ} {text : String}
    {outcome : Except Error t.Carrier} (h : s.interpreter.KeepsNotes)
    (hrun : (executeAs t text).run s = (outcome, s')) :
    s'.context.notes = Course.enterAll (course? text s).toList s.context.notes ∧
      s'.interpreter.KeepsNotes :=
  journal_instruction h (fun _ r hi => Instruction.journal_executeAs hi t r) hrun

end Session

/-! ## Commands -/

/-- What the host changes in a context is not the journal: it has no way to write into it. -/
def Command.SparesNotes {κ : Type} : Command κ σ Notes → Prop
  | .change _ f => ∀ c, (f c).notes = c.notes
  | _ => True

/-- Nor do the functions and modifiers that the host registers write into it. -/
def Command.KeepsNotes {κ : Type} : Command κ σ Notes → Prop
  | .registerFunction f => f.KeepsNotes
  | .registerModifier m => m.KeepsNotes
  | .change _ f => ∀ c, (f c).notes = c.notes
  | _ => True

/-- A function that keeps the notes spares them as well. -/
theorem Command.KeepsNotes.spares {κ : Type} {command : Command κ σ Notes}
    (h : command.KeepsNotes) : command.SparesNotes := by
  cases command with
  | change k f => exact h
  | _ => exact trivial

/-! ### Names that change -/

namespace Interpreter

variable {i : Interpreter σ Notes}

/-- A new interpreter knows the functions and the modifier of the library alone. -/
theorem keepsNotes_ofConfig (config : Config) :
    (ofConfig config : Interpreter σ Notes).KeepsNotes where
  functions := Table.forall_insert
    (Table.forall_insert Table.forall_empty Function.keepsNotes_printer "Print")
    Function.keepsNotes_evaluator "Evaluate"
  modifiers := Table.forall_insert Table.forall_empty Modifier.keepsNotes_negator "neg"
  kept := Table.forall_empty

theorem KeepsNotes.registerFunction (h : i.KeepsNotes) {f : Function σ Notes}
    (hf : f.KeepsNotes) : (i.registerFunction f).2.KeepsNotes where
  functions := Table.forall_insert h.functions hf f.name
  modifiers := h.modifiers
  kept := Table.forall_empty

theorem KeepsNotes.registerModifier (h : i.KeepsNotes) {m : Modifier σ Notes}
    (hm : m.KeepsNotes) : (i.registerModifier m).2.KeepsNotes where
  functions := h.functions
  modifiers := Table.forall_insert h.modifiers hm m.name
  kept := Table.forall_empty

theorem KeepsNotes.unregisterFunction (h : i.KeepsNotes) (name : String) :
    (i.unregisterFunction name).2.KeepsNotes := by
  unfold Interpreter.unregisterFunction
  split
  · exact ⟨Table.forall_erase h.functions name, h.modifiers, Table.forall_empty⟩
  · exact h

theorem KeepsNotes.unregisterModifier (h : i.KeepsNotes) (name : String) :
    (i.unregisterModifier name).2.KeepsNotes := by
  unfold Interpreter.unregisterModifier
  split
  · exact ⟨h.functions, Table.forall_erase h.modifiers name, Table.forall_empty⟩
  · exact h

end Interpreter

/-! ### One command and a run of them -/

namespace Workspace

variable {ι κ : Type} [DecidableEq ι] [DecidableEq κ]

/-- How the instruction that the command starts against a context ends, if it starts one. -/
def course? (w : Workspace ι κ σ Notes) (k : κ) : Command κ σ Notes → Option Course
  | .execute k' text => if k = k' then Session.course? text ⟨w.interpreter, w.context k'⟩ else none
  | .executeAs k' _ text =>
    if k = k' then Session.course? text ⟨w.interpreter, w.context k'⟩ else none
  | _ => none

/-- How the instructions end that start against a context, in their order. -/
def courses (w : Workspace ι κ σ Notes) (k : κ) : List (Command κ σ Notes) → List Course
  | [] => []
  | command :: commands =>
    (w.course? k command).toList ++ (w.step command).2.courses k commands

variable {w : Workspace ι κ σ Notes} {k : κ}

/-- A step with one context changes no other one. -/
theorem contexts_onContext {α : Type} (act : SessionM σ Notes α) (k' : κ) :
    (w.onContext k' act).2.contexts k
      = if k = k' then (act.run ⟨w.interpreter, w.context k'⟩).2.context else w.contexts k := by
  show Function.update w.contexts k' _ k = _
  rw [Function.update_apply]
  rfl

/-- What is done in one context is written down there and nowhere else. -/
theorem tells_onContext {α : Type} {act : SessionM σ Notes α} {k' : κ} {course? : Option Course}
    (hact : Course.Tells course? (w.context k').notes
      (act.run ⟨w.interpreter, w.context k'⟩).2.context.notes) :
    Course.Tells (if k = k' then course? else none) (w.contexts k).notes
      ((w.onContext k' act).2.contexts k).notes := by
  rw [contexts_onContext]
  by_cases hk : k = k'
  · rw [if_pos hk, if_pos hk, hk]
    exact hact
  · rw [if_neg hk, if_neg hk]
    rfl

/-- What the host changes in a context without writing notes changes no notes. -/
theorem notes_change {f : Context σ Notes → Context σ Notes} (hf : ∀ c, (f c).notes = c.notes)
    (w : Workspace ι κ σ Notes) (k k' : κ) :
    ((w.step (.change k' f)).2.contexts k).notes = (w.contexts k).notes := by
  show (Function.update w.contexts k' (f (w.context k')) k).notes = (w.contexts k).notes
  rw [Function.update_apply]
  split
  · next hk =>
    rw [hk, hf]
    rfl
  · rfl

/-- What is told after a command is told by the course of the instruction that it starts. -/
theorem tells_step {command : Command κ σ Notes} (hcommand : command.SparesNotes)
    (w : Workspace ι κ σ Notes) (k : κ) :
    Course.Tells (w.course? k command) (w.contexts k).notes
      ((w.step command).2.contexts k).notes := by
  cases command with
  | execute k' text =>
    have htells := Session.tells_execute text ⟨w.interpreter, w.context k'⟩
    exact tells_onContext htells
  | executeAs k' t text =>
    have htells := Session.tells_executeAs t text ⟨w.interpreter, w.context k'⟩
    exact tells_onContext htells
  | change k' f =>
    have hspares : ∀ c, (f c).notes = c.notes := hcommand
    exact notes_change hspares w k k'
  | _ => rfl

/-- What is told after a run of commands is told by the last course. -/
theorem tells_run {commands : List (Command κ σ Notes)}
    (hcommands : ∀ command ∈ commands, command.SparesNotes) (w : Workspace ι κ σ Notes) (k : κ) :
    Course.Tells (w.courses k commands).getLast? (w.contexts k).notes
      ((w.run commands).2.contexts k).notes := by
  induction commands generalizing w with
  | nil => rfl
  | cons command commands ih =>
    have hfirst : command.SparesNotes := hcommands command List.mem_cons_self
    have hothers : ∀ command' ∈ commands, command'.SparesNotes :=
      fun command' hmem => hcommands command' (List.mem_cons_of_mem _ hmem)
    exact (tells_step hfirst w k).append (ih hothers (w.step command).2)

/-- A step with one context enters its course there and nowhere else. -/
theorem journal_onContext {α : Type} {act : SessionM σ Notes α} {k' : κ} {course? : Option Course}
    (hact : ∀ outcome s', act.run ⟨w.interpreter, w.context k'⟩ = (outcome, s') →
      s'.context.notes = Course.enterAll course?.toList (w.context k').notes ∧
        s'.interpreter.KeepsNotes) :
    ((w.onContext k' act).2.contexts k).notes
      = Course.enterAll (if k = k' then course? else none).toList (w.contexts k).notes ∧
    (w.onContext k' act).2.interpreter.KeepsNotes := by
  rcases hact _ _ rfl with ⟨hjournal, hinterpreter⟩
  refine ⟨?_, hinterpreter⟩
  rw [contexts_onContext]
  by_cases hk : k = k'
  · rw [if_pos hk, if_pos hk, hk]
    exact hjournal
  · rw [if_neg hk, if_neg hk]
    exact (Course.enterAll_nil _).symm

/-- A command changes the journal of a context by the course of the instruction that it starts
there. -/
theorem journal_step (h : w.interpreter.KeepsNotes) {command : Command κ σ Notes}
    (hcommand : command.KeepsNotes) (k : κ) :
    ((w.step command).2.contexts k).notes
      = Course.enterAll (w.course? k command).toList (w.contexts k).notes ∧
    (w.step command).2.interpreter.KeepsNotes := by
  cases command with
  | registerFunction f => exact ⟨(Course.enterAll_nil _).symm, h.registerFunction hcommand⟩
  | unregisterFunction name => exact ⟨(Course.enterAll_nil _).symm, h.unregisterFunction name⟩
  | registerModifier m => exact ⟨(Course.enterAll_nil _).symm, h.registerModifier hcommand⟩
  | unregisterModifier name => exact ⟨(Course.enterAll_nil _).symm, h.unregisterModifier name⟩
  | clearCache =>
    exact ⟨(Course.enterAll_nil _).symm, ⟨h.functions, h.modifiers, Table.forall_empty⟩⟩
  | execute k' text => exact journal_onContext fun _ _ hrun => Session.journal_execute h hrun
  | executeAs k' t text => exact journal_onContext fun _ _ hrun => Session.journal_executeAs h hrun
  | change k' f =>
    refine ⟨?_, h⟩
    have hkeeps : ∀ c, (f c).notes = c.notes := hcommand
    have hnone : w.course? k (.change k' f) = none := rfl
    rw [hnone, Option.toList_none, Course.enterAll_nil]
    exact notes_change hkeeps w k k'

/-- A run of commands changes it by the courses of all of them. -/
theorem journal_run (h : w.interpreter.KeepsNotes) {commands : List (Command κ σ Notes)}
    (hcommands : ∀ command ∈ commands, command.KeepsNotes) (k : κ) :
    ((w.run commands).2.contexts k).notes
      = Course.enterAll (w.courses k commands) (w.contexts k).notes := by
  induction commands generalizing w with
  | nil => exact (Course.enterAll_nil _).symm
  | cons command commands ih =>
    have hfirst : command.KeepsNotes := hcommands command List.mem_cons_self
    have hothers : ∀ command' ∈ commands, command'.KeepsNotes :=
      fun command' hmem => hcommands command' (List.mem_cons_of_mem _ hmem)
    rcases journal_step h hfirst k with ⟨hjournal, hinterpreter⟩
    have hrest := ih hinterpreter hothers
    rw [courses, Course.enterAll_append, ← hjournal, ← hrest]
    rfl

end Workspace

/-- Between two commands, a context names nothing as running if the last instruction that started
against it has completed, and then it names the result of that instruction; if none has started, its
journal is as it was.  This is so whatever the functions do.

With functions and modifiers that leave the journal alone it names the result of the last
instruction that completed, and it names nothing as running just if the last one that started has
completed or none has started.  If that one has failed, in its function, an argument or a modifier,
it is the one that is named. -/
theorem executing_run_iff {ι κ : Type} [DecidableEq ι] [DecidableEq κ] (config : Config)
    (hostOf : κ → ι) (worlds : ι → World σ) (contexts : κ → Context σ Notes)
    (hblank : ∀ k, (contexts k).notes = some .blank) (commands : List (Command κ σ Notes))
    (hcommands : ∀ command ∈ commands, command.SparesNotes) (k : κ) :
    let courses := Workspace.courses ⟨.ofConfig config, hostOf, worlds, contexts⟩ k commands
    let c := (Workspace.run ⟨.ofConfig config, hostOf, worlds, contexts⟩ commands).2.contexts k
    Course.Tells courses.getLast? (some .blank) c.notes ∧
    ((∀ command ∈ commands, command.KeepsNotes) →
      c.last? = (courses.filterMap Course.info?).getLast? ∧
      (c.executing? = none ↔ ∀ course, courses.getLast? = some course → course.info?.isSome) ∧
      c.executing? = courses.getLast?.bind Course.source?) := by
  intro courses c
  have htells := Workspace.tells_run hcommands ⟨.ofConfig config, hostOf, worlds, contexts⟩ k
  dsimp only at htells
  rw [hblank k] at htells
  refine ⟨htells, fun hkeep => ?_⟩
  -- The journal is that of the last course, and the last result that of the last one completed.
  have hjournal : c.notes = some ⟨courses.getLast?.bind Course.source?,
      (courses.filterMap Course.info?).getLast?⟩ := by
    rw [Workspace.journal_run (Interpreter.keepsNotes_ofConfig config) hkeep k, hblank k]
    exact Course.enterAll_blank courses
  have hexecuting : c.executing? = courses.getLast?.bind Course.source? := by
    rw [Context.executing?, hjournal]
    rfl
  refine ⟨?_, ?_, hexecuting⟩
  · rw [Context.last?, hjournal]
    rfl
  · rw [hexecuting]
    cases courses.getLast? with
    | none => simp
    | some course =>
      cases course with
      | completed info => simp [Course.source?, Course.info?]
      | failed source => simp [Course.source?, Course.info?]

/-! ## A text that fails in its argument -/

namespace UndefinedName

def scope : Scope Unit :=
  { objects := {}
    selectors := []
    initializers := .empty }

/-- One context, whose journal has no entries. -/
def contexts : Unit → Context Unit Notes := fun _ =>
  ⟨⟨scope, 0, .empty, ⟨.ofSize ⟨8, 1⟩, ⟨(), 0⟩⟩⟩, some .blank⟩

def start : Workspace Unit Unit Unit Notes :=
  ⟨.ofConfig {}, fun _ => (), fun _ => ⟨(), 0⟩, contexts⟩

/-- An instruction completes, one fails, one completes whose result is of another type, and the last
one cannot be built. -/
def commands : List (Command Unit Unit Notes) :=
  [.execute () "Evaluate: 1", .execute () "Evaluate: missing", .executeAs () .bool "Evaluate: 2",
    .execute () "Missing: 1"]

/-- The instruction that failed is forgotten when the next one completes. -/
theorem executing_run_iff_recovered :
    let courses := start.courses () commands
    let c := (start.run commands).2.contexts ()
    courses.filterMap Course.source? = ["Evaluate: missing"] ∧
      Course.Tells courses.getLast? (some .blank) c.notes ∧
      c.last? = (courses.filterMap Course.info?).getLast? ∧
      (c.executing? = none ↔ ∀ course, courses.getLast? = some course → course.info?.isSome) ∧
      c.executing? = courses.getLast?.bind Course.source? := by
  intro courses c
  have hfailed : courses.filterMap Course.source? = ["Evaluate: missing"] := by decide +kernel
  have hblank : ∀ k, (contexts k).notes = some .blank := fun _ => rfl
  have hkeep : ∀ command ∈ commands, command.KeepsNotes := by
    intro command hmem
    simp only [commands, List.mem_cons, List.not_mem_nil, or_false] at hmem
    rcases hmem with rfl | rfl | rfl | rfl <;> trivial
  have hspare : ∀ command ∈ commands, command.SparesNotes :=
    fun command hmem => (hkeep command hmem).spares
  rcases executing_run_iff {} (fun _ => ()) (fun _ => ⟨(), 0⟩) contexts hblank commands hspare ()
    with ⟨htells, hnamed⟩
  exact ⟨hfailed, htells, hnamed hkeep⟩

/-- After an instruction has failed in its argument, when nothing runs, it is named as running. -/
theorem executing_after_failure :
    ((start.run [.execute () "Evaluate: missing"]).2.contexts ()).executing?
      = some "Evaluate: missing" := by
  decide +kernel

end UndefinedName

end Edict
