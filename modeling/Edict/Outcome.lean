/-! # Outcomes

Reading text and applying operators end in a result or in an error.  A chain of such steps has a
result exactly if each of its steps has one.  Steps that work on a state stop at the first error and
keep what the state has become by then.
-/

namespace Edict

/-- Two steps succeed if the first does, and the second on what that gives. -/
theorem bind_eq_ok_iff {ε α β : Type} {first : Except ε α} {next : α → Except ε β} {b : β} :
    first >>= next = .ok b ↔ ∃ a, first = .ok a ∧ next a = .ok b := by
  cases first with
  | error e => simp [bind, Except.bind]
  | ok a => simp [bind, Except.bind]

/-- What is made of a result makes no difference to an error. -/
theorem bind_pure_eq_error_iff {ε α β : Type} {first : Except ε α} {f : α → β} {e : ε} :
    (first >>= fun a => pure (f a)) = .error e ↔ first = .error e := by
  cases first with
  | error e => simp [bind, Except.bind]
  | ok a => simp [bind, Except.bind, pure, Except.pure]

theorem map_eq_ok_iff {ε α β : Type} {f : α → β} {outcome : Except ε α} {b : β} :
    outcome.map f = .ok b ↔ ∃ a, outcome = .ok a ∧ f a = b := by
  cases outcome with
  | error e => simp [Except.map]
  | ok a => simp [Except.map]

/-- A result that is changed twice is changed once. -/
theorem map_map {ε α β γ : Type} (f : α → β) (g : β → γ) (outcome : Except ε α) :
    (outcome.map f).map g = outcome.map fun a => g (f a) := by
  cases outcome with
  | error e => rfl
  | ok a => rfl

/-- It makes no difference which part of a result is changed first. -/
theorem map_fst_snd {ε α α' β β' : Type} (f : α → α') (g : β → β') (outcome : Except ε (α × β)) :
    (outcome.map (Prod.map f id)).map (Prod.map id g)
      = (outcome.map (Prod.map id g)).map (Prod.map f id) := by
  rw [map_map, map_map]
  rfl

theorem map_some_eq_ok_some {ε α : Type} {outcome : Except ε α} {a : α} :
    outcome.map some = .ok (some a) ↔ outcome = .ok a := by
  cases outcome with
  | error e => simp [Except.map]
  | ok b => simp [Except.map]

theorem map_some_ne_ok_none {ε α : Type} {outcome : Except ε α} :
    outcome.map some ≠ .ok none := by
  cases outcome with
  | error e => simp [Except.map]
  | ok b => simp [Except.map]

/-- Rewording errors does not change results. -/
theorem mapError_eq_ok_iff {ε ε' α : Type} {f : ε → ε'} {outcome : Except ε α} {a : α} :
    outcome.mapError f = .ok a ↔ outcome = .ok a := by
  cases outcome with
  | error e =>
    constructor
    · intro h
      cases h
    · intro h
      cases h
  | ok b =>
    constructor
    · intro h
      cases h
      rfl
    · intro h
      cases h
      rfl

/-- The second step is run from the state that the first one leaves, unless that fails. -/
theorem run_bind {ε τ α β : Type} (act : ExceptT ε (StateM τ) α)
    (next : α → ExceptT ε (StateM τ) β) (x : τ) :
    (act >>= next).run x = match act.run x with
      | (.ok a, x') => (next a).run x'
      | (.error e, x') => (.error e, x') := by
  have hact : act x = act.run x := rfl
  show (ExceptT.bind act next).run x = _
  simp only [ExceptT.bind, ExceptT.mk, ExceptT.run, bind, StateT.bind]
  rw [hact]
  rcases act.run x with ⟨e | a, x'⟩
  · rfl
  · rfl

/-- A result of two steps in a row is a result of the second on what the first leaves. -/
theorem run_bind_ok {ε τ α β : Type} {act : ExceptT ε (StateM τ) α}
    {next : α → ExceptT ε (StateM τ) β} {x x' : τ} {b : β}
    (h : (act >>= next).run x = (.ok b, x')) :
    ∃ a x'', act.run x = (.ok a, x'') ∧ (next a).run x'' = (.ok b, x') := by
  rw [run_bind] at h
  rcases hact : act.run x with ⟨e | a, x''⟩
  · rw [hact] at h
    cases h
  · rw [hact] at h
    exact ⟨a, x'', rfl, h⟩

end Edict
