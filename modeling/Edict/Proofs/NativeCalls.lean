import Edict.Native.Function
import Mathlib.Data.List.Basic

namespace Edict

/-! # What a native function receives

Three lists of any length meet in a call of a native function: its parameters, its defaults and the
arguments of the call.  Arguments are matched with the first parameters and defaults with the last
ones, both by position.  A call fails at once if that leaves a parameter without a value.  Otherwise
it evaluates the arguments that there are parameters for, then converts and reads a value for each
parameter, all from left to right and up to the first failure.

Main statements:

* `evalArguments_eq_ok_iff`, `evalArguments_eq_error_iff`: what evaluating arguments comes to;
* `supplied_iff`: the values for the parameters are the arguments and the last defaults;
* `bindFrom_eq_ok_iff`, `bindFrom_eq_error_iff`: what reading values as parameters comes to;
* `invoke_withDefaults_iff`: what a call comes to.
-/

/-- The runtime in which the host has got another state. -/
def Runtime.withWorld {σ τ : Type} (r : Runtime σ τ) (w : World σ) : Runtime σ τ :=
  { r with context.evaluator.machine.world := w }

/-- An action of the host changes the world and nothing else. -/
theorem CallM.run_host {σ τ α : Type} (act : ExceptT Error (StateM (World σ)) α)
    (r : Runtime σ τ) :
    (CallM.host act).run r = ((act.run r.context.evaluator.machine.world).1,
      r.withWorld (act.run r.context.evaluator.machine.world).2) :=
  rfl

namespace NativeFunction

variable {σ τ : Type}

/-! ## Arguments -/

/-- Each of the expressions is evaluated once, from left to right and each on what the one before it
leaves, and each has a value. -/
inductive Evaluates : List Node → Runtime σ τ → List Value → Runtime σ τ → Prop
  | nil {r : Runtime σ τ} : Evaluates [] r [] r
  | cons {arg : Node} {args : List Node} {v : Value} {vs : List Value} {r r₁ r' : Runtime σ τ}
      (hfirst : (CallM.evaluate (evalValue arg)).run r = (.ok v, r₁))
      (hrest : Evaluates args r₁ vs r') : Evaluates (arg :: args) r (v :: vs) r'

section

variable {args : List Node} {r r' : Runtime σ τ} {vs : List Value} {e : Error}

/-- There are as many values as arguments. -/
theorem Evaluates.length (h : Evaluates args r vs r') : vs.length = args.length := by
  induction h with
  | nil => rfl
  | cons _ _ ih => rw [List.length_cons, List.length_cons, ih]

theorem run_evalArguments_cons (arg : Node) (args : List Node) (r : Runtime σ τ) :
    (evalArguments (arg :: args)).run r = match (CallM.evaluate (evalValue arg)).run r with
      | (.error e, r₁) => (.error e, r₁)
      | (.ok v, r₁) => match (evalArguments args).run r₁ with
        | (.error e, r') => (.error e, r')
        | (.ok vs, r') => (.ok (v :: vs), r') := by
  rw [evalArguments, run_bind]
  rcases (CallM.evaluate (evalValue arg)).run r with ⟨e | v, r₁⟩
  · rfl
  · dsimp only
    rw [run_bind]
    rcases (evalArguments args).run r₁ with ⟨e | vs, r'⟩
    · rfl
    · rfl

/-- Evaluating arguments gives a value of each of them, -/
theorem evalArguments_eq_ok_iff :
    (evalArguments args).run r = (.ok vs, r') ↔ Evaluates args r vs r' := by
  constructor
  · intro h
    induction args generalizing r vs with
    | nil =>
      cases h
      exact .nil
    | cons arg args ih =>
      rw [run_evalArguments_cons] at h
      split at h
      · cases h
      · next v r₁ hfirst =>
        split at h
        · cases h
        · next others r₂ hrest =>
          cases h
          exact .cons hfirst (ih hrest)
  · intro h
    induction h with
    | nil => rfl
    | cons hfirst _ ih => simp only [run_evalArguments_cons, hfirst, ih]

/-- or ends with the error of the first that fails; what stands behind that one is not evaluated. -/
theorem evalArguments_eq_error_iff :
    (evalArguments args).run r = (.error e, r') ↔
      ∃ i arg vs r₁, args[i]? = some arg ∧ Evaluates (args.take i) r vs r₁ ∧
        (CallM.evaluate (evalValue arg)).run r₁ = (.error e, r') := by
  constructor
  · intro h
    induction args generalizing r with
    | nil => cases h
    | cons arg args ih =>
      rw [run_evalArguments_cons] at h
      split at h
      · next hfirst =>
        cases h
        exact ⟨0, arg, [], r, rfl, .nil, hfirst⟩
      · next v r₁ hfirst =>
        split at h
        · next hrest =>
          cases h
          rcases ih hrest with ⟨i, failing, vs, r₂, hget, hbefore, hfails⟩
          exact ⟨i + 1, failing, v :: vs, r₂, hget, .cons hfirst hbefore, hfails⟩
        · cases h
  · rintro ⟨i, arg, vs, r₁, hget, hbefore, hfails⟩
    induction args generalizing i r vs with
    | nil => cases hget
    | cons first args ih =>
      cases i with
      | zero =>
        obtain rfl : first = arg := by simpa using hget
        cases hbefore
        simp only [run_evalArguments_cons, hfails]
      | succ i =>
        -- The first argument has a value, and the one that fails is among the others.
        cases hbefore with
        | cons hfirst hrest =>
          have hothers := ih i _ hget hrest
          simp only [run_evalArguments_cons, hfirst, hothers]

end

/-! ## Values for the parameters -/

/-- There is a value for each of `arity` parameters: that of the argument in its place, if there is
one, and otherwise the default that stands as far from the end of the defaults as the parameter does
from the end of the parameters. -/
structure Supplied (arity : Nat) (given defaults values : List Value) : Prop where
  length : values.length = arity
  argument : ∀ i, i < given.length → values[i]? = given[i]?
  default : ∀ i, given.length ≤ i → i < arity →
    arity - i ≤ defaults.length ∧ values[i]? = defaults[defaults.length - (arity - i)]?

section

variable {arity : Nat} {given defaults values values' : List Value}

/-- There is one way to fill up what is missing. -/
theorem Supplied.unique (h : Supplied arity given defaults values)
    (h' : Supplied arity given defaults values') : values = values' := by
  refine List.ext_getElem? fun i => ?_
  by_cases hlast : i < arity
  · -- One of the two clauses says which value stands here.
    by_cases hgiven : i < given.length
    · rw [h.argument i hgiven, h'.argument i hgiven]
    · have hle := Nat.le_of_not_lt hgiven
      rw [(h.default i hle hlast).2, (h'.default i hle hlast).2]
  · have hle := Nat.le_of_not_lt hlast
    rw [List.getElem?_eq_none (by rw [h.length]; exact hle),
      List.getElem?_eq_none (by rw [h'.length]; exact hle)]

/-- If there are enough arguments and not too many, these are the arguments and the last defaults. -/
theorem supplied_append (hgiven : given.length ≤ arity)
    (henough : arity - given.length ≤ defaults.length) :
    Supplied arity given defaults
      (given ++ defaults.drop (defaults.length - (arity - given.length))) := by
  constructor
  · rw [List.length_append, List.length_drop]
    omega
  · intro i hi
    rw [List.getElem?_append_left hi]
  · intro i hi harity
    refine ⟨by omega, ?_⟩
    rw [List.getElem?_append_right hi, List.getElem?_drop]
    congr 1
    omega

/-- The missing values are the last of the defaults. -/
theorem supplied_iff (hgiven : given.length ≤ arity)
    (henough : arity - given.length ≤ defaults.length) :
    Supplied arity given defaults values ↔
      values = given ++ defaults.drop (defaults.length - (arity - given.length)) := by
  constructor
  · intro h
    exact h.unique (supplied_append hgiven henough)
  · rintro rfl
    exact supplied_append hgiven henough

end

/-! ## Converting and reading values -/

/-- Each of the values is converted toward the type of its parameter, from left to right and each on
what the one before it leaves, and then it is read as that type. -/
inductive Converts (converters : Converters σ) :
    World σ → (parameters : List (NativeType σ)) → List Value → Arguments parameters → World σ → Prop
  | nil {w : World σ} : Converts converters w [] [] () w
  | cons {t : NativeType σ} {ts : List (NativeType σ)} {v v' : Value} {vs : List Value}
      {a : t.Carrier} {others : Arguments ts} {w w₁ w₂ w' : World σ}
      (hconvert : (converters.convert v t.id).run w = (.ok v', w₁))
      (hread : (t.read? v').run w₁ = (some a, w₂)) (hrest : Converts converters w₂ ts vs others w') :
      Converts converters w (t :: ts) (v :: vs) (a, others) w'

/-- A value is not to be had as the type of parameter `index`: its converter fails, with an error of
its own, or what it is converted to cannot be read as the type. -/
inductive Refused (converters : Converters σ) (function : String) (index : Nat) (t : NativeType σ)
    (v : Value) (w : World σ) : Error → World σ → Prop
  | converter {e : EvalError} {w' : World σ}
      (hconvert : (converters.convert v t.id).run w = (.error e, w')) :
      Refused converters function index t v w (.eval e) w'
  | type {v' : Value} {w₁ w' : World σ}
      (hconvert : (converters.convert v t.id).run w = (.ok v', w₁))
      (hread : (t.read? v').run w₁ = (none, w')) :
      Refused converters function index t v w
        (.binding (.argumentType function index t.label v'.kind)) w'

section

variable {converters : Converters σ} {function : String} {index : Nat}
  {parameters : List (NativeType σ)} {values : List Value} {w w' : World σ}

/-- The first parameter is converted and read before the others. -/
theorem run_bindFrom_cons (t : NativeType σ) (ts : List (NativeType σ)) (v : Value)
    (vs : List Value) :
    (bindFrom function converters index (t :: ts) (v :: vs)).run w
      = match (converters.convert v t.id).run w with
        | (.error e, w₁) => (.error (.eval e), w₁)
        | (.ok v', w₁) => match (t.read? v').run w₁ with
          | (none, w₂) => (.error (.binding (.argumentType function index t.label v'.kind)), w₂)
          | (some a, w₂) => match (bindFrom function converters (index + 1) ts vs).run w₂ with
            | (.error e, w') => (.error e, w')
            | (.ok others, w') => (.ok (a, others), w') := by
  have hadapt : ((converters.convert v t.id).adapt Error.eval).run w
      = (((converters.convert v t.id).run w).1.mapError .eval,
        ((converters.convert v t.id).run w).2) :=
    rfl
  rw [bindFrom, run_bind]
  simp only [List.head?_cons, Option.getD_some, List.tail_cons, hadapt]
  rcases (converters.convert v t.id).run w with ⟨e | v', w₁⟩
  · rfl
  · dsimp only [Except.mapError]
    -- Reading a value as a type cannot fail by itself: it finds one or none.
    have hlift : (ExceptT.lift (t.read? v') : ExceptT Error (StateM (World σ)) _).run w₁
        = (.ok ((t.read? v').run w₁).1, ((t.read? v').run w₁).2) := rfl
    refine (run_bind (ExceptT.lift (t.read? v')) _ w₁).trans ?_
    rw [hlift]
    rcases (t.read? v').run w₁ with ⟨_ | a, w₂⟩
    · rfl
    · dsimp only
      refine (run_bind (bindFrom function converters (index + 1) ts vs) _ w₂).trans ?_
      rcases (bindFrom function converters (index + 1) ts vs).run w₂ with ⟨e | others, w'⟩
      · rfl
      · rfl

/-- Reading values as parameters gives what they are converted to, -/
theorem bindFrom_eq_ok_iff (hlength : values.length = parameters.length)
    {arguments : Arguments parameters} :
    (bindFrom function converters index parameters values).run w = (.ok arguments, w') ↔
      Converts converters w parameters values arguments w' := by
  constructor
  · intro h
    -- The induction is on the parameters; values go along, one for each.
    induction parameters generalizing index values w with
    | nil =>
      obtain rfl := List.length_eq_zero_iff.mp hlength
      cases h
      exact .nil
    | cons t ts ih =>
      obtain ⟨v, vs, rfl⟩ := List.exists_cons_of_length_eq_add_one hlength
      rw [run_bindFrom_cons] at h
      split at h
      · cases h
      · next v' w₁ hconvert =>
        split at h
        · cases h
        · next a w₂ hread =>
          split at h
          · cases h
          · next others w₃ hrest =>
            cases h
            exact .cons hconvert hread (ih (Nat.succ.inj hlength) hrest)
  · intro h
    induction h generalizing index with
    | nil => rfl
    | cons hconvert hread _ ih =>
      simp only [run_bindFrom_cons, hconvert, hread, ih (Nat.succ.inj hlength)]

/-- or ends with the error of the first parameter that is refused its value. -/
theorem bindFrom_eq_error_iff (hlength : values.length = parameters.length) {e : Error} :
    (bindFrom function converters index parameters values).run w = (.error e, w') ↔
      ∃ i t v arguments w₁, parameters[i]? = some t ∧ values[i]? = some v ∧
        Converts converters w (parameters.take i) (values.take i) arguments w₁ ∧
        Refused converters function (index + i) t v w₁ e w' := by
  constructor
  · intro h
    induction parameters generalizing index values w with
    | nil => cases h
    | cons t ts ih =>
      obtain ⟨v, vs, rfl⟩ := List.exists_cons_of_length_eq_add_one hlength
      rw [run_bindFrom_cons] at h
      split at h
      · next hconvert =>
        cases h
        exact ⟨0, t, v, (), w, rfl, rfl, .nil, .converter hconvert⟩
      · next v' w₁ hconvert =>
        split at h
        · next hread =>
          cases h
          exact ⟨0, t, v, (), w, rfl, rfl, .nil, .type hconvert hread⟩
        · next a w₂ hread =>
          split at h
          · next hrest =>
            cases h
            rcases ih (Nat.succ.inj hlength) hrest with
              ⟨i, t', u, others, w₃, htype, hvalue, hbefore, hrefused⟩
            rw [Nat.add_assoc, Nat.add_comm 1 i] at hrefused
            exact ⟨i + 1, t', u, (a, others), w₃, htype, hvalue,
              .cons hconvert hread hbefore, hrefused⟩
          · cases h
  · rintro ⟨i, t, v, arguments, w₁, htype, hvalue, hbefore, hrefused⟩
    induction parameters generalizing index i values w with
    | nil => cases htype
    | cons first ts ih =>
      obtain ⟨u, vs, rfl⟩ := List.exists_cons_of_length_eq_add_one hlength
      cases i with
      | zero =>
        obtain rfl : first = t := by simpa using htype
        obtain rfl : u = v := by simpa using hvalue
        cases hbefore
        cases hrefused with
        | converter hconvert => simp only [run_bindFrom_cons, hconvert]
        | type hconvert hread => simp only [run_bindFrom_cons, hconvert, hread, Nat.add_zero]
      | succ i =>
        cases hbefore with
        | cons hconvert hread hrest =>
          -- Counted from the second parameter, the one that is refused is one place earlier.
          rw [Nat.add_comm i 1, ← Nat.add_assoc] at hrefused
          have hothers := ih (Nat.succ.inj hlength) i _ htype hvalue hrest hrefused
          simp only [run_bindFrom_cons, hconvert, hread, hothers]

end

/-! ## Calls -/

variable {f : NativeFunction σ τ} {defaults : List Value} {args : List Node} {r r' : Runtime σ τ}

/-- What a call comes to whose function is `f` with `defaults`. -/
inductive Calls (f : NativeFunction σ τ) (defaults : List Value) (args : List Node)
    (r : Runtime σ τ) : Except Error ValueInfo → Runtime σ τ → Prop
  /-- There is a parameter that has neither an argument nor a default.  Nothing is evaluated. -/
  | insufficient (hfew : args.length < f.arity - min f.arity defaults.length) :
      Calls f defaults args r (.error (.binding (.insufficientArguments f.name
        (f.arity - min f.arity defaults.length) args.length))) r
  /-- An argument fails that there is a parameter for. -/
  | argument {i : Nat} {arg : Node} {given : List Value} {e : Error} {r₁ r' : Runtime σ τ}
      (henough : f.arity - min f.arity defaults.length ≤ args.length) (hlast : i < f.arity)
      (harg : args[i]? = some arg) (hbefore : Evaluates (args.take i) r given r₁)
      (hfails : (CallM.evaluate (evalValue arg)).run r₁ = (.error e, r')) :
      Calls f defaults args r (.error e) r'
  /-- Parameter `i` is refused its value. -/
  | refused {i : Nat} {t : NativeType σ} {v : Value} {given values : List Value} {r₁ : Runtime σ τ}
      {before : Arguments (f.parameters.take i)} {w w' : World σ} {e : Error}
      (henough : f.arity - min f.arity defaults.length ≤ args.length)
      (hgiven : Evaluates (args.take f.arity) r given r₁)
      (hsupplied : Supplied f.arity given defaults values) (htype : f.parameters[i]? = some t)
      (hvalue : values[i]? = some v)
      (hbefore : Converts r₁.context.evaluator.converters r₁.context.evaluator.machine.world
        (f.parameters.take i) (values.take i) before w)
      (hrefused : Refused r₁.context.evaluator.converters f.name i t v w e w') :
      Calls f defaults args r (.error e) (r₁.withWorld w')
  /-- Each parameter receives its value, and the body is run on them. -/
  | body {given values : List Value} {r₁ r' : Runtime σ τ} {arguments : Arguments f.parameters}
      {w' : World σ} {outcome : Except Error ValueInfo}
      (henough : f.arity - min f.arity defaults.length ≤ args.length)
      (hgiven : Evaluates (args.take f.arity) r given r₁)
      (hsupplied : Supplied f.arity given defaults values)
      (hreceived : Converts r₁.context.evaluator.converters r₁.context.evaluator.machine.world
        f.parameters values arguments w')
      (hrun : (f.run arguments).run (r₁.withWorld w') = (outcome, r')) :
      Calls f defaults args r outcome r'

/-- No function has more defaults than parameters. -/
theorem length_defaults_withDefaults (f : NativeFunction σ τ) (defaults : List Value) :
    (f.withDefaults defaults).defaults.length = min f.arity defaults.length := by
  show (defaults.drop (defaults.length - f.arity)).length = _
  rw [List.length_drop]
  omega

/-- Defaults beyond the number of parameters count for nothing. -/
theorem required_withDefaults (f : NativeFunction σ τ) (defaults : List Value) :
    (f.withDefaults defaults).required = f.arity - min f.arity defaults.length := by
  rw [required, length_defaults_withDefaults]
  rfl

/-- Arguments beyond the parameters change nothing. -/
theorem invoke_take (f : NativeFunction σ τ) (args : List Node) :
    f.invoke (args.take f.arity) = f.invoke args := by
  by_cases hfew : args.length ≤ f.arity
  · rw [List.take_of_length_le hfew]
  · have hrequired : f.required ≤ f.arity := Nat.sub_le _ _
    have hmany : ¬args.length < f.required := by omega
    have hall : ¬(args.take f.arity).length < f.required := by
      rw [List.length_take]
      omega
    rw [invoke, invoke, if_neg hmany, if_neg hall, List.take_take, Nat.min_self]

/-- Defaults have no part in what the body does. -/
theorem run_withDefaults (f : NativeFunction σ τ) (defaults : List Value)
    (arguments : Arguments f.parameters) :
    (f.withDefaults defaults).run arguments = f.run arguments := by
  rcases f with ⟨name, parameters, result, body, old⟩
  cases body with
  | detached run => rfl
  | contextual run => rfl

/-- The values for the parameters of a call with the arguments `given`. -/
def suppliedValues (f : NativeFunction σ τ) (defaults given : List Value) : List Value :=
  let last := (f.withDefaults defaults).defaults
  given ++ last.drop (last.length - (f.arity - given.length))

/-- A call evaluates arguments, then reads the values for the parameters, then runs the body. -/
theorem run_invoke (f : NativeFunction σ τ) (defaults : List Value) (args : List Node)
    (r : Runtime σ τ) :
    ((f.withDefaults defaults).invoke args).run r =
      if args.length < f.arity - min f.arity defaults.length then
        (.error (.binding (.insufficientArguments f.name
          (f.arity - min f.arity defaults.length) args.length)), r)
      else match (evalArguments (args.take f.arity)).run r with
        | (.error e, r₁) => (.error e, r₁)
        | (.ok given, r₁) =>
          match (bindFrom f.name r₁.context.evaluator.converters 0 f.parameters
            (f.suppliedValues defaults given)).run r₁.context.evaluator.machine.world with
          | (.error e, w') => (.error e, r₁.withWorld w')
          | (.ok arguments, w') => (f.run arguments).run (r₁.withWorld w') := by
  unfold invoke
  rw [required_withDefaults]
  split
  · rfl
  · refine (run_bind (evalArguments (args.take f.arity)) _ r).trans ?_
    rcases (evalArguments (args.take f.arity)).run r with ⟨e | given, r₁⟩
    · rfl
    · dsimp only
      refine (run_bind CallM.context _ r₁).trans ?_
      refine (run_bind (CallM.host (bindFrom f.name r₁.context.evaluator.converters 0 f.parameters
        (f.suppliedValues defaults given))) _ r₁).trans ?_
      rw [CallM.run_host]
      rcases (bindFrom f.name r₁.context.evaluator.converters 0 f.parameters
        (f.suppliedValues defaults given)).run r₁.context.evaluator.machine.world with
        ⟨e | arguments, w'⟩
      · rfl
      · dsimp only
        -- Defaults belong to the call, not to the body.
        rw [run_withDefaults]

/-- Where there are enough arguments, these are the ones that the parameters are due. -/
theorem Evaluates.supplied_iff {given values : List Value}
    (hgiven : Evaluates (args.take f.arity) r given r')
    (henough : f.arity - min f.arity defaults.length ≤ args.length) :
    Supplied f.arity given defaults values ↔ values = f.suppliedValues defaults given := by
  have hlength := hgiven.length
  rw [List.length_take] at hlength
  -- The defaults that were dropped stand in front of those that are needed.
  have hlast : f.suppliedValues defaults given
      = given ++ defaults.drop (defaults.length - (f.arity - given.length)) := by
    dsimp only [suppliedValues]
    rw [length_defaults_withDefaults]
    show given ++ (defaults.drop (defaults.length - f.arity)).drop _ = _
    rw [List.drop_drop]
    congr 2
    omega
  rw [hlast]
  exact NativeFunction.supplied_iff (by omega) (by omega)

/-- A call comes to nothing else, -/
theorem calls_of_run_invoke {outcome : Except Error ValueInfo}
    (h : ((f.withDefaults defaults).invoke args).run r = (outcome, r')) :
    f.Calls defaults args r outcome r' := by
  rw [run_invoke] at h
  split at h
  · next hfew =>
    cases h
    exact .insufficient hfew
  · next hmany =>
    have henough := Nat.not_lt.mp hmany
    split at h
    · next hfails =>
      cases h
      rcases evalArguments_eq_error_iff.mp hfails with ⟨i, arg, given, r₁, hget, hbefore, hfails⟩
      obtain ⟨hlast, harg⟩ : i < f.arity ∧ args[i]? = some arg := by
        rw [List.getElem?_take] at hget
        split at hget
        · next hlast => exact ⟨hlast, hget⟩
        · cases hget
      -- What stands in front of it among those evaluated is what stands in front of it at all.
      rw [List.take_take, Nat.min_eq_left (Nat.le_of_lt hlast)] at hbefore
      exact .argument henough hlast harg hbefore hfails
    · next given r₁ hgiven =>
      have hgiven := evalArguments_eq_ok_iff.mp hgiven
      have hsupplied := (hgiven.supplied_iff henough).mpr rfl
      split at h
      · next hrefused =>
        cases h
        rcases (bindFrom_eq_error_iff hsupplied.length).mp hrefused with
          ⟨i, t, v, before, w, htype, hvalue, hbefore, hrefused⟩
        rw [Nat.zero_add] at hrefused
        exact .refused henough hgiven hsupplied htype hvalue hbefore hrefused
      · next arguments w' hreceived =>
        have hreceived := (bindFrom_eq_ok_iff hsupplied.length).mp hreceived
        exact .body henough hgiven hsupplied hreceived h

/-- and to each of these. -/
theorem Calls.run_invoke {outcome : Except Error ValueInfo}
    (h : f.Calls defaults args r outcome r') :
    ((f.withDefaults defaults).invoke args).run r = (outcome, r') := by
  rw [NativeFunction.run_invoke]
  cases h with
  | insufficient hfew => rw [if_pos hfew]
  | @argument i arg given e r₁ r' henough hlast harg hbefore hfails =>
    -- Only the arguments that have a parameter are evaluated, and the failing one is among them.
    have hget : (args.take f.arity)[i]? = some arg := by
      rw [List.getElem?_take_of_lt hlast, harg]
    rw [← Nat.min_eq_left (Nat.le_of_lt hlast), ← List.take_take] at hbefore
    have hrun := evalArguments_eq_error_iff.mpr ⟨i, arg, given, r₁, hget, hbefore, hfails⟩
    rw [if_neg (Nat.not_lt.mpr henough), hrun]
  | @refused i _ _ _ _ _ _ _ _ _ henough hgiven hsupplied htype hvalue hbefore hrefused =>
    -- What the parameters get is determined by the arguments that were evaluated.
    obtain rfl := (hgiven.supplied_iff henough).mp hsupplied
    rw [← Nat.zero_add i] at hrefused
    have hbind := (bindFrom_eq_error_iff hsupplied.length).mpr
      ⟨_, _, _, _, _, htype, hvalue, hbefore, hrefused⟩
    rw [if_neg (Nat.not_lt.mpr henough), evalArguments_eq_ok_iff.mpr hgiven]
    dsimp only
    rw [hbind]
  | body henough hgiven hsupplied hreceived hrun =>
    obtain rfl := (hgiven.supplied_iff henough).mp hsupplied
    rw [if_neg (Nat.not_lt.mpr henough), evalArguments_eq_ok_iff.mpr hgiven]
    dsimp only
    rw [(bindFrom_eq_ok_iff hsupplied.length).mpr hreceived]
    exact hrun

/-- A call has one outcome, and it is the one that `Calls` describes: no length makes it go astray.

The function has no more defaults than parameters; it evaluates no more arguments than it has
parameters; and where there are enough of them, no more defaults are needed than there are.
Arguments beyond the parameters change nothing. -/
theorem invoke_withDefaults_iff (f : NativeFunction σ τ) (defaults : List Value) (args : List Node) :
    let g := f.withDefaults defaults
    let evaluated := args.take g.arity
    (g.defaults.length ≤ g.arity ∧ evaluated.length ≤ g.arity ∧
      (g.required ≤ args.length → g.arity - evaluated.length ≤ g.defaults.length)) ∧
    g.invoke args = g.invoke evaluated ∧
    ∀ r outcome r', (g.invoke args).run r = (outcome, r') ↔ f.Calls defaults args r outcome r' := by
  intro g evaluated
  have harity : g.arity = f.arity := rfl
  have hdefaults : g.defaults.length = min f.arity defaults.length :=
    length_defaults_withDefaults f defaults
  have hrequired : g.required = f.arity - min f.arity defaults.length :=
    required_withDefaults f defaults
  have hevaluated : evaluated.length = min f.arity args.length := List.length_take
  exact ⟨⟨by omega, by omega, by omega⟩, (invoke_take g args).symm,
    fun r outcome r' => ⟨calls_of_run_invoke, Calls.run_invoke⟩⟩

end NativeFunction

namespace ThreeDigits

/-- A host that knows `x` and remembers the names that it is asked for. -/
def scope : Scope (List String) where
  objects := {}
  selectors := [(⟨0⟩, .readOnly fun _ name => fun w =>
    (if name = "x" then some (.int 1) else none, { w with state := w.state ++ [name] }))]
  initializers := .empty

/-- Texts can stand for integers, but for the empty text. -/
def converters : Converters (List String) :=
  Table.empty.insert (.string, .int) fun v =>
    if v.text "" = "" then throw (.conversion "string" "int" "empty text")
    else return .int (Int32.ofNat (v.text "").utf8ByteSize)

def start : Runtime (List String) Unit :=
  ⟨⟨⟨scope, 1, converters, ⟨.ofSize ⟨8, 1⟩, ⟨[], 0⟩⟩⟩, ()⟩, .stdout ""⟩

/-- The number that three digits write. -/
def digits : NativeFunction (List String) Unit :=
  ⟨"digits", [.int, .int, .int], .int, .detached fun (a, b, c, _) =>
    return 100 * a + 10 * b + c, []⟩

/-- Five defaults for three parameters, the last one a text. -/
def defaults : List Value := [.int 9, .int 8, .int 7, .int 6, .str "seven"]

def call (args : List Node) : Except Error ValueInfo × Runtime (List String) Unit :=
  ((digits.withDefaults defaults).invoke args).run start

/-- One argument is followed by the last two of the five defaults, and the text among these is
converted. -/
theorem invoke_withDefaults_iff_digits :
    let info : ValueInfo := ⟨.int, 0⟩
    let r := (call [.ident "x"]).2
    digits.Calls defaults [.ident "x"] start (.ok info) r ∧
      ((EvalM.popInt info).perform scope r.context.evaluator.machine).1 = .ok 165 ∧
      r.context.evaluator.machine.world.state = ["x"] := by
  intro info r
  have houtcome : (call [.ident "x"]).1 = .ok info := by decide +kernel
  have hresult : ((EvalM.popInt info).perform scope r.context.evaluator.machine).1 = .ok 165 := by
    decide +kernel
  have hasked : r.context.evaluator.machine.world.state = ["x"] := by decide +kernel
  have hcalls := (NativeFunction.invoke_withDefaults_iff digits defaults [.ident "x"]).2.2 start
    (.ok info) r
  exact ⟨hcalls.mp (Prod.ext houtcome rfl), hresult, hasked⟩

/-- The error of a converter says nothing of the parameter, and an argument behind one that fails is
not evaluated. -/
theorem failures_without_position :
    (call [.str ""]).1 = .error (.eval (.conversion "string" "int" "empty text")) ∧
      (call [.ident "missing", .ident "x"]).1 = .error (.eval (.undefinedIdentifier "missing")) ∧
      (call [.ident "missing", .ident "x"]).2.context.evaluator.machine.world.state
        = ["missing"] := by
  refine ⟨?_, ?_, ?_⟩
  · decide +kernel
  · decide +kernel
  · decide +kernel

end ThreeDigits

end Edict
