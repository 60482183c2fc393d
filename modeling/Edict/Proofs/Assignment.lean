import Edict.Proofs.Discipline
import Edict.SampleHost

namespace Edict

/-! # Assignments are read back

A name is looked up by one walk along the selectors and assigned by another.  If each selector keeps
a table of its own, both walks end at the first table that holds the name: what has been assigned is
what is read next, and no other entry has changed.

Main statements:

* `selectFirst_cases`, `assignFirst_cases`: where the two walks end;
* `eval_assign_reads_back`: an assignment that has a value is read back and touches one entry, and
  one that has none touches no entry.
-/

open EvalM

/-! ## Tables of names -/

/-- What the selectors hold under names on their own, by the number of the selector; those that are
asked first have the lower numbers. -/
abbrev Tables : Type := Nat → String → Option Value

namespace Tables

variable {t : Tables} {x : String} {i j : Nat}

/-- The tables with another entry for a name in one of them. -/
def write (t : Tables) (i : Nat) (x : String) (v : Value) : Tables :=
  fun j y => if j = i ∧ y = x then some v else t j y

/-- The table is the first that holds the name. -/
structure FirstHolds (t : Tables) (x : String) (i : Nat) : Prop where
  holds : t i x ≠ none
  first : ∀ j < i, t j x = none

theorem FirstHolds.eq (hi : t.FirstHolds x i) (hj : t.FirstHolds x j) : i = j := by
  rcases Nat.lt_trichotomy i j with h | h | h
  · exact (hi.holds (hj.first i h)).elim
  · exact h
  · exact (hj.holds (hi.first j h)).elim

theorem write_self (t : Tables) (i : Nat) (x : String) (v : Value) : t.write i x v i x = some v :=
  if_pos ⟨rfl, rfl⟩

theorem FirstHolds.write (h : t.FirstHolds x i) (v : Value) : (t.write i x v).FirstHolds x i := by
  constructor
  · simp [write_self]
  · intro j hj
    rw [Tables.write, if_neg (by omega)]
    exact h.first j hj

end Tables

section

variable {σ : Type}

/-- For names on their own, the selector reads and writes one of the tables: it knows the names that
the table holds, accepts an assignment to just these, and changes nothing but the entry assigned
to. -/
structure Selector.IsTable (sel : Selector σ) (tables : World σ → Tables) (i : Nat) : Prop where
  reads : ∀ x w, ∃ w', (sel.select none x).run w = (tables w i x, w') ∧ tables w' = tables w
  accepts : ∀ x v w, tables w i x ≠ none →
    ∃ w', (sel.assign none x v).run w = (true, w') ∧ tables w' = (tables w).write i x v
  refuses : ∀ x v w, tables w i x = none →
    ∃ w', (sel.assign none x v).run w = (false, w') ∧ tables w' = tables w

/-- The selectors are tables, with numbers from `k` on. -/
def AreTables (tables : World σ → Tables) (k : Nat) (sels : List (Selector σ)) : Prop :=
  ∀ (i : Nat) (sel : Selector σ), sels[i]? = some sel → sel.IsTable tables (k + i)

variable {tables : World σ → Tables} {x : String} {w : World σ} {k : Nat} {sel : Selector σ}
  {sels : List (Selector σ)}

theorem AreTables.head (h : AreTables tables k (sel :: sels)) : sel.IsTable tables k :=
  h 0 sel rfl

theorem AreTables.tail (h : AreTables tables k (sel :: sels)) : AreTables tables (k + 1) sels := by
  intro i sel' hi
  rw [Nat.add_right_comm]
  exact h (i + 1) sel' hi

/-! ## Walking along the selectors -/

/-- A selector that is come to either holds the name as the first or leaves it to those behind. -/
theorem firstHolds_or_none {t : Tables} (hbefore : ∀ j < k, t j x = none) :
    t.FirstHolds x k ∨ t k x = none ∧ ∀ j < k + 1, t j x = none := by
  by_cases h : t k x = none
  · refine .inr ⟨h, fun j hj => ?_⟩
    rcases Nat.lt_succ_iff_lt_or_eq.mp hj with hj | rfl
    · exact hbefore j hj
    · exact h
  · exact .inl ⟨h, hbefore⟩

theorem run_selectFirst_cons (owner? : Option ObjectRef) (x : String) (sel : Selector σ)
    (sels : List (Selector σ)) (w : World σ) :
    (Selector.selectFirst owner? x (sel :: sels)).run w
      = match (sel.select owner? x).run w with
        | (some v, w₁) => (some v, w₁)
        | (none, w₁) => (Selector.selectFirst owner? x sels).run w₁ := by
  rw [Selector.selectFirst, StateT.run_bind]
  rcases (sel.select owner? x).run w with ⟨_ | v, w₁⟩
  · rfl
  · rfl

theorem run_assignFirst_cons (owner? : Option ObjectRef) (x : String) (v : Value)
    (sel : Selector σ) (sels : List (Selector σ)) (w : World σ) :
    (Selector.assignFirst owner? x v (sel :: sels)).run w
      = match (sel.assign owner? x v).run w with
        | (true, w₁) => (true, w₁)
        | (false, w₁) => (Selector.assignFirst owner? x v sels).run w₁ := by
  rw [Selector.assignFirst, StateT.run_bind]
  rcases (sel.assign owner? x v).run w with ⟨_ | _, w₁⟩
  · rfl
  · rfl

/-- A name is read from the first table that holds it. -/
theorem selectFirst_cases (h : AreTables tables k sels) (hbefore : ∀ j < k, tables w j x = none) :
    (∃ i < k + sels.length, (tables w).FirstHolds x i ∧ ∃ w', tables w' = tables w ∧
      (Selector.selectFirst none x sels).run w = (tables w i x, w')) ∨
    ((∀ j < k + sels.length, tables w j x = none) ∧ ∃ w', tables w' = tables w ∧
      (Selector.selectFirst none x sels).run w = (none, w')) := by
  induction sels generalizing k w with
  | nil => exact .inr ⟨hbefore, w, rfl, rfl⟩
  | cons sel sels ih =>
    rcases h.head.reads x w with ⟨w₁, hread, hkept⟩
    rw [run_selectFirst_cons, hread, List.length_cons, ← Nat.succ_add_eq_add_succ]
    rcases firstHolds_or_none hbefore with hfirst | ⟨hnone, hbefore'⟩
    · rcases Option.ne_none_iff_exists'.mp hfirst.holds with ⟨v, hv⟩
      refine .inl ⟨k, by omega, hfirst, w₁, hkept, ?_⟩
      rw [hv]
    · have hwalk := ih (w := w₁) h.tail (by rwa [hkept])
      rw [hkept] at hwalk
      rw [hnone]
      exact hwalk

/-- A name is assigned in the first table that holds it. -/
theorem assignFirst_cases (h : AreTables tables k sels) (hbefore : ∀ j < k, tables w j x = none)
    (v : Value) :
    (∃ i < k + sels.length, (tables w).FirstHolds x i ∧
      ∃ w', tables w' = (tables w).write i x v ∧
        (Selector.assignFirst none x v sels).run w = (true, w')) ∨
    ((∀ j < k + sels.length, tables w j x = none) ∧ ∃ w', tables w' = tables w ∧
      (Selector.assignFirst none x v sels).run w = (false, w')) := by
  induction sels generalizing k w with
  | nil => exact .inr ⟨hbefore, w, rfl, rfl⟩
  | cons sel sels ih =>
    rw [List.length_cons, ← Nat.succ_add_eq_add_succ]
    rcases firstHolds_or_none hbefore with hfirst | ⟨hnone, hbefore'⟩
    · rcases h.head.accepts x v w hfirst.holds with ⟨w₁, haccepts, hwritten⟩
      refine .inl ⟨k, by omega, hfirst, w₁, hwritten, ?_⟩
      rw [run_assignFirst_cons, haccepts]
    · rcases h.head.refuses x v w hnone with ⟨w₁, hrefuses, hkept⟩
      have hwalk := ih (w := w₁) h.tail (by rwa [hkept])
      rw [hkept] at hwalk
      rw [run_assignFirst_cons, hrefuses]
      exact hwalk

/-! ## Names and assignments -/

variable {scope : Scope σ} {s : Stack}

/-- A name comes to what the first table that holds it holds. -/
theorem perform_eval_ident (h : AreTables tables 0 (scope.selectors.map (·.2))) {i : Nat}
    {v : Value} (hlast : i < scope.selectors.length) (hfirst : (tables w).FirstHolds x i)
    (hv : tables w i x = some v) (hroom : s.overflow? v = none) :
    ∃ w', tables w' = tables w ∧
      (eval (.ident x)).perform scope ⟨s, w⟩ = (.ok (s.place v), ⟨s.holding v, w'⟩) := by
  rw [eval, selectName, ← bind_assoc, perform_bind, perform_onSelectors]
  rcases selectFirst_cases h (by omega) with ⟨i', -, hfirst', w', hkept, hrun⟩ | ⟨hnone, -⟩
  · obtain rfl : i = i' := hfirst.eq hfirst'
    refine ⟨w', hkept, ?_⟩
    rw [hrun, hv]
    dsimp only
    rw [perform_pushValue, hroom]
  · rw [List.length_map, Nat.zero_add] at hnone
    exact (hfirst.holds (hnone i hlast)).elim

/-- What an assignment comes to once its right side has come to a value. -/
theorem perform_assignValue (h : AreTables tables 0 (scope.selectors.map (·.2))) (x : String)
    (v : Value) (w : World σ) (hroom : s.overflow? v = none) :
    (∃ i < scope.selectors.length, (tables w).FirstHolds x i ∧
      ∃ w', tables w' = (tables w).write i x v ∧
        (assignValue none x v).perform scope ⟨s, w⟩
          = (.ok (s.place v), ⟨s.holding v, w'⟩)) ∨
    ((∀ i < scope.selectors.length, tables w i x = none) ∧ ∃ w', tables w' = tables w ∧
      (assignValue none x v).perform scope ⟨s, w⟩
        = (.error (.unassignableIdentifier x), ⟨s, w'⟩)) := by
  have hwalk := assignFirst_cases (w := w) (x := x) h (by omega) v
  rw [List.length_map, Nat.zero_add] at hwalk
  unfold assignValue
  dsimp only
  rw [perform_bind, perform_onSelectors]
  rcases hwalk with ⟨i, hlast, hfirst, w', hwritten, hrun⟩ | ⟨hnone, w', hkept, hrun⟩
  · refine .inl ⟨i, hlast, hfirst, w', hwritten, ?_⟩
    rw [hrun]
    dsimp only
    rw [if_pos rfl, perform_pushValue, hroom]
  · refine .inr ⟨hnone, w', hkept, ?_⟩
    rw [hrun]
    rfl

/-- Where evaluation finds a value there was room for it, and the stack is as before. -/
theorem evalValue_ok_room {n : Node} {v : Value} {m' : Machine σ}
    (h : (evalValue n).perform scope ⟨s, w⟩ = (.ok v, m')) :
    s.overflow? v = none ∧ ∃ w', m' = ⟨s, w'⟩ := by
  rcases perform_bind_ok scope h with ⟨info, ⟨s', w'⟩, heval, hpop⟩
  have hends : Ends scope s s (eval n) (Leaves s) := ends_eval n s
  have houtcome := hends.outcome w
  rw [heval] at houtcome
  rcases houtcome with ⟨v', rfl, rfl, hroom⟩
  rw [perform_popValue scope hroom] at hpop
  cases hpop
  exact ⟨hroom, w', rfl⟩

theorem perform_eval_assign (x : String) (e : Node) (m : Machine σ) :
    (eval (.apply .assign [.ident x, e])).perform scope m
      = match (evalValue e).perform scope m with
        | (.ok v, m₁) => (assignValue none x v).perform scope m₁
        | (.error err, m₁) => (.error err, m₁) := by
  rw [eval_assign_ident, perform_bind, evalValue]
  rcases (popped (eval e)).perform scope m with ⟨err | v, m₁⟩
  · rfl
  · rfl

/-- If an assignment to a name has a value, this is the value of its right side; it is left on the
stack, it stands in the first table that held the name after the right side was evaluated, and it is
what the name comes to from then on.  All other entries are as evaluating the right side alone
leaves them.  If the assignment fails, they all are: either the right side failed, or no table held
the name after it. -/
theorem eval_assign_reads_back (h : AreTables tables 0 (scope.selectors.map (·.2))) (x : String)
    (e : Node) (s : Stack) (w : World σ) :
    (∀ info m', (eval (.apply .assign [.ident x, e])).perform scope ⟨s, w⟩ = (.ok info, m') →
      ∃ v w₁, (evalValue e).perform scope ⟨s, w⟩ = (.ok v, ⟨s, w₁⟩) ∧ s.overflow? v = none ∧
        info = s.place v ∧ m'.stack = s.holding v ∧
        (∃ i < scope.selectors.length, (tables w₁).FirstHolds x i ∧
          tables m'.world = (tables w₁).write i x v) ∧
        ∀ t : Stack, t.overflow? v = none → ∃ w₂, tables w₂ = tables m'.world ∧
          (eval (.ident x)).perform scope ⟨t, m'.world⟩
            = (.ok (t.place v), ⟨t.holding v, w₂⟩)) ∧
    ∀ err m', (eval (.apply .assign [.ident x, e])).perform scope ⟨s, w⟩ = (.error err, m') →
      (evalValue e).perform scope ⟨s, w⟩ = (.error err, m') ∨
      ∃ v w₁, (evalValue e).perform scope ⟨s, w⟩ = (.ok v, ⟨s, w₁⟩) ∧
        (∀ i < scope.selectors.length, tables w₁ i x = none) ∧
        err = .unassignableIdentifier x ∧ m'.stack = s ∧ tables m'.world = tables w₁ := by
  rw [perform_eval_assign]
  rcases hright : (evalValue e).perform scope ⟨s, w⟩ with ⟨err | v, m₁⟩
  · refine ⟨?_, ?_⟩
    · rintro info m' ⟨⟩
    · rintro err' m' ⟨⟩
      exact .inl rfl
  · rcases evalValue_ok_room hright with ⟨hroom, w₁, rfl⟩
    dsimp only
    rcases perform_assignValue h x v w₁ hroom with
      ⟨i, hlast, hfirst, w', hwritten, hassign⟩ | ⟨hnone, w', hkept, hassign⟩
    · rw [hassign]
      refine ⟨?_, ?_⟩
      · rintro info m' ⟨⟩
        refine ⟨v, w₁, rfl, hroom, rfl, rfl, ⟨i, hlast, hfirst, hwritten⟩, fun t ht => ?_⟩
        -- The table that was written is still the first that holds the name.
        have hfirst' : (tables w').FirstHolds x i := by
          rw [hwritten]
          exact hfirst.write v
        have hv : tables w' i x = some v := by
          rw [hwritten]
          exact Tables.write_self _ i x v
        exact perform_eval_ident h hlast hfirst' hv ht
      · rintro err m' ⟨⟩
    · rw [hassign]
      refine ⟨?_, ?_⟩
      · rintro info m' ⟨⟩
      · rintro err m' ⟨⟩
        exact .inr ⟨v, w₁, rfl, hnone, rfl, rfl, hkept⟩

end

/-! ## The sample host -/

namespace SampleHost

/-- The selector for the names kept under a number, which can be assigned. -/
def writable (number : Nat) : Selector SampleHost := ⟨selectName number, assignName number⟩

/-- What the sample host keeps under the numbers. -/
def tables (numbers : List Nat) (w : World SampleHost) : Tables := fun i x =>
  numbers[i]?.bind fun number => (w.state.names.find? number).bind fun n => n.globals.find? x

theorem run_assignName (number : Nat) (x : String) (v : Value) (w : World SampleHost) :
    (assignName number none x v).run w = match w.state.names.find? number with
      | none => (false, { w with state.log := .set number none x v :: w.state.log })
      | some n =>
        if n.globals.contains x then
          (true, { w with
            state.names := w.state.names.insert number (n.set none x v)
            state.log := .set number none x v :: w.state.log })
        else (false, { w with state.log := .set number none x v :: w.state.log }) := by
  simp only [assignName, note, StateT.run_bind, StateT.run_modify, StateT.run_get, pure_bind,
    Option.map_none]
  cases w.state.names.find? number with
  | none => rfl
  | some n =>
    have htable : n.table none = n.globals := rfl
    dsimp only
    rw [htable]
    cases n.globals.contains x with
    | true => rfl
    | false => rfl

variable {numbers : List Nat} {number i : Nat}

/-- What is written into the names of one number is read from the table of this number alone. -/
theorem tables_insert (hnumbers : numbers.Nodup) (hi : numbers[i]? = some number)
    {w w' : World SampleHost} {n : Names} (hn : w.state.names.find? number = some n) {x : String}
    {v : Value} (hw' : w'.state.names = w.state.names.insert number (n.set none x v)) :
    tables numbers w' = (tables numbers w).write i x v := by
  funext j y
  rw [tables, hw', Tables.write, tables]
  cases hj : numbers[j]? with
  | none =>
    have hne : ¬ (j = i ∧ y = x) := by
      rintro ⟨rfl, -⟩
      cases hj.symm.trans hi
    rw [if_neg hne]
    rfl
  | some number' =>
    dsimp only [Option.bind_some]
    rw [Table.find?_insert]
    -- Numbers differ, so a table with another number is another table.
    by_cases hnumber : number' = number
    · subst hnumber
      have hlast : j < numbers.length := (List.getElem?_eq_some_iff.mp hj).1
      obtain rfl : j = i := (List.getElem?_inj hlast hnumbers).mp (hj.trans hi.symm)
      have hset : (n.set none x v).globals.find? y
          = if y = x then some v else n.globals.find? y := Table.find?_insert _ _ _ _
      rw [if_pos rfl, hn]
      dsimp only [Option.bind_some]
      rw [hset]
      simp
    · have hne : ¬ (j = i ∧ y = x) := by
        rintro ⟨rfl, -⟩
        exact hnumber (Option.some.inj (hj.symm.trans hi))
      rw [if_neg hne, if_neg hnumber]

theorem isTable_writable (hnumbers : numbers.Nodup) (hi : numbers[i]? = some number) :
    (writable number).IsTable (tables numbers) i := by
  have hheld : ∀ w x, tables numbers w i x
      = (w.state.names.find? number).bind fun n => n.globals.find? x := by
    intro w x
    rw [tables, hi]
    rfl
  constructor
  · -- Reading is looking the name up.
    intro x w
    rw [hheld]
    exact ⟨_, rfl, rfl⟩
  · -- A name that is there is written to.
    intro x v w hholds
    rw [hheld] at hholds
    show ∃ w', (assignName number none x v).run w = _ ∧ _
    rw [run_assignName]
    cases hn : w.state.names.find? number with
    | none =>
      rw [hn] at hholds
      exact (hholds rfl).elim
    | some n =>
      rw [hn] at hholds
      have hcontains : n.globals.contains x = true := Option.isSome_iff_ne_none.mpr hholds
      dsimp only
      rw [if_pos hcontains]
      exact ⟨_, rfl, tables_insert hnumbers hi hn rfl⟩
  · -- A name that is not there is not accepted.
    intro x v w hnone
    rw [hheld] at hnone
    show ∃ w', (assignName number none x v).run w = _ ∧ _
    rw [run_assignName]
    cases hn : w.state.names.find? number with
    | none => exact ⟨_, rfl, rfl⟩
    | some n =>
      rw [hn] at hnone
      have hcontains : ¬ n.globals.contains x = true := by
        rw [Table.contains, Option.isSome_iff_ne_none, not_not]
        exact hnone
      dsimp only
      rw [if_neg hcontains]
      exact ⟨_, rfl, rfl⟩

/-- Selectors with different numbers keep tables of their own. -/
theorem areTables_writable (hnumbers : numbers.Nodup) :
    AreTables (tables numbers) 0 (numbers.map writable) := by
  intro i sel hi
  rw [List.getElem?_map, Option.map_eq_some_iff] at hi
  rcases hi with ⟨number, hnumber, rfl⟩
  rw [Nat.zero_add]
  exact isTable_writable hnumbers hnumber

/-- Two selectors that both hold `x`; the one asked last also holds `y`. -/
def shadowing : Scope SampleHost := ⟨SampleHost.objects, [(⟨1⟩, writable 1), (⟨0⟩, writable 0)], .empty⟩

def shadowed : World SampleHost :=
  { world with
    state.names := (Table.empty.insert 0
      ⟨(Table.empty.insert "x" (.int 7)).insert "y" .void, .empty, true⟩).insert 1
        ⟨Table.empty.insert "x" (.int 5), .empty, true⟩ }

/-- In `x = (y = x + 1) * 2` the right side assigns too.  Then `x` is twelve where it was five, and
the seven behind it is still there. -/
theorem eval_assign_reads_back_nested :
    let e : Node := .apply .mul [.apply .assign [.ident "y", .apply .add [.ident "x", .int 1]],
      .int 2]
    let s : Stack := .ofSize ⟨4, 1⟩
    let m' := ((eval (.apply .assign [.ident "x", e])).perform shadowing ⟨s, shadowed⟩).2
    AreTables (tables [1, 0]) 0 (shadowing.selectors.map (·.2)) ∧
      ((eval (.apply .assign [.ident "x", e])).perform shadowing ⟨s, shadowed⟩).1 = .ok ⟨.int, 0⟩ ∧
      (tables [1, 0] m'.world 0 "x").bind Value.asInt? = some 12 ∧
      (tables [1, 0] m'.world 1 "x").bind Value.asInt? = some 7 ∧
      (tables [1, 0] m'.world 1 "y").bind Value.asInt? = some 6 ∧
      ∃ w₂, tables [1, 0] w₂ = tables [1, 0] m'.world ∧
        (eval (.ident "x")).perform shadowing ⟨s, m'.world⟩
          = (.ok ⟨.int, 0⟩, ⟨s.holding (.int 12), w₂⟩) := by
  intro e s m'
  have htables : AreTables (tables [1, 0]) 0 (shadowing.selectors.map (·.2)) :=
    areTables_writable (by decide)
  have hok : ((eval (.apply .assign [.ident "x", e])).perform shadowing ⟨s, shadowed⟩).1
      = .ok ⟨.int, 0⟩ := by
    decide +kernel
  have heval : (eval (.apply .assign [.ident "x", e])).perform shadowing ⟨s, shadowed⟩
      = (.ok ⟨.int, 0⟩, m') := by
    rw [← hok]
  rcases (eval_assign_reads_back htables "x" e s shadowed).1 _ m' heval with
    ⟨v, w₁, hright, hroom, hplace, hstack, ⟨i, hlast, hfirst, hwritten⟩, hread⟩
  have htwelve : ((evalValue e).perform shadowing ⟨s, shadowed⟩).1.toOption.bind Value.asInt?
      = some 12 := by
    decide +kernel
  rw [hright] at htwelve
  obtain rfl : v = .int 12 := by
    cases v with
    | int v =>
      cases htwelve
      rfl
    | _ => cases htwelve
  refine ⟨htables, hok, by decide +kernel, by decide +kernel, by decide +kernel, ?_⟩
  exact hread s hroom

end SampleHost

end Edict
