import Edict.Evaluation.Evaluator
import Mathlib.Data.List.Induction

namespace Edict

/-! # Handles of selectors

A handle holds the number of its registration in 32 bits, so that every `2^32`-th registration gives
out the same one.  A handle still stands for one selector as long as it is used for no other: the
selectors that are registered when a handle is given out or used must not include one whose own
registration lies a multiple of `2^32` registrations away (`Clear`).

A host registers selectors and removes them by the handles it was given (`SelectorUse`).  What it
expects of that is said without handles, by the numbers of the registrations (`Registrations`).

Main statements:

* `Tracks.step`: a clear change does to the selectors what it does to the registrations;
* `exact_iff_clear`: handles are exact all along a run just if all its changes are clear;
* `handle_given_twice`: there is a run in which one is not.
-/

/-- A change that a host makes. -/
inductive SelectorChange (σ : Type) where
  | register (s : Selector σ)
  /-- Removes a selector by the handle that registration `k` gave, counted from zero. -/
  | unregister (k : Nat)

/-! ## What a host expects -/

/-- The selectors that are registered, the one registered last first, each with the number of its
registration. -/
structure Registrations (σ : Type) where
  /-- How many registrations there have been. -/
  count : Nat
  live : List (Nat × Selector σ)

namespace Registrations

variable {σ : Type}

/-- What a change does if each registration is known by its number. -/
def step (r : Registrations σ) : SelectorChange σ → Registrations σ
  | .register s => ⟨r.count + 1, (r.count, s) :: r.live⟩
  | .unregister k => { r with live := r.live.filter (·.1 ≠ k) }

/-- The registrations after some changes. -/
def run (changes : List (SelectorChange σ)) : Registrations σ := changes.foldl step ⟨0, []⟩

/-- A run is its last change behind the others. -/
theorem run_concat (changes : List (SelectorChange σ)) (c : SelectorChange σ) :
    run (changes ++ [c]) = (run changes).step c := by
  rw [run, run, List.foldl_append, List.foldl_cons, List.foldl_nil]

/-- No selector that is registered has its number a multiple of `2^32` away from that of the
registration that a change makes or takes back. -/
def Clear (r : Registrations σ) : SelectorChange σ → Prop
  | .register _ => ∀ e ∈ r.live, e.1 % 4294967296 ≠ r.count % 4294967296
  | .unregister k => k < r.count → ∀ e ∈ r.live, e.1 % 4294967296 = k % 4294967296 → e.1 = k

end Registrations

/-! ## What happens -/

/-- An evaluator, and the handles that its registrations have returned, in their order. -/
structure SelectorUse (σ : Type) where
  evaluator : Evaluator σ
  given : List SelectorId

namespace SelectorUse

variable {σ : Type}

/-- The selectors with their handles, as the evaluator keeps them. -/
def selectors (u : SelectorUse σ) : List (SelectorId × Selector σ) := u.evaluator.scope.selectors

/-- Makes a change.  A host cannot use a handle that it was not given. -/
def step (u : SelectorUse σ) : SelectorChange σ → SelectorUse σ
  | .register s =>
    let (id, evaluator) := u.evaluator.registerSelector s
    ⟨evaluator, u.given ++ [id]⟩
  | .unregister k =>
    match u.given[k]? with
    | some id => { u with evaluator := (u.evaluator.unregisterSelector id).2 }
    | none => u

/-- Makes changes to a new evaluator. -/
def run (size : StackSize) (objects : Objects σ) (world : World σ)
    (changes : List (SelectorChange σ)) : SelectorUse σ :=
  changes.foldl step ⟨.new size objects world, []⟩

theorem run_concat (size : StackSize) (objects : Objects σ) (world : World σ)
    (changes : List (SelectorChange σ)) (c : SelectorChange σ) :
    run size objects world (changes ++ [c]) = (run size objects world changes).step c := by
  rw [run, run, List.foldl_append, List.foldl_cons, List.foldl_nil]

/-- Handles are exact: those of the registered selectors differ, and the registered selectors are
those that the host expects, in their order, each under the handle that its registration gave. -/
structure Exact (u : SelectorUse σ) (r : Registrations σ) : Prop where
  distinct : (u.selectors.map (·.1)).Nodup
  expected : u.selectors.map (fun (id, s) => (some id, s))
    = r.live.map fun (k, s) => (u.given[k]?, s)

end SelectorUse

/-- To take a handle back is to drop all selectors that have it. -/
theorem selectors_unregisterSelector {σ : Type} (e : Evaluator σ) (id : SelectorId) :
    (e.unregisterSelector id).2.scope.selectors = e.scope.selectors.filter (·.1 ≠ id) :=
  rfl

/-- The handle that registration `k` gives. -/
def SelectorId.ofNumber (k : Nat) : SelectorId := ⟨UInt32.ofNat k⟩

/-- Handles repeat after `2^32` of them. -/
theorem SelectorId.ofNumber_inj {k l : Nat} :
    ofNumber k = ofNumber l ↔ k % 4294967296 = l % 4294967296 := by
  rw [ofNumber, ofNumber, SelectorId.mk.injEq, ← UInt32.toNat_inj, UInt32.toNat_ofNat',
    UInt32.toNat_ofNat']

/-! ## Clear changes -/

open SelectorId

variable {σ : Type}

/-- The evaluator does what the host expects, with `ofNumber k` for the number `k`. -/
structure Tracks (u : SelectorUse σ) (r : Registrations σ) : Prop where
  next : u.evaluator.nextSelector = UInt32.ofNat r.count
  given : u.given = (List.range r.count).map ofNumber
  selectors : u.selectors = r.live.map fun (k, s) => (ofNumber k, s)
  older : ∀ e ∈ r.live, e.1 < r.count
  apart : r.live.Pairwise fun e e' => e.1 % 4294967296 ≠ e'.1 % 4294967296

namespace Tracks

variable {u : SelectorUse σ} {r : Registrations σ} {c : SelectorChange σ}

/-- The handle that the `k`-th registration was given has the number `k`. -/
theorem getElem?_given (h : Tracks u r) (k : Nat) :
    u.given[k]? = if k < r.count then some (ofNumber k) else none := by
  rw [h.given, List.getElem?_map]
  by_cases hk : k < r.count
  · rw [List.getElem?_range hk, if_pos hk]
    rfl
  · have hnone : (List.range r.count)[k]? = none := by
      rw [List.getElem?_eq_none_iff, List.length_range]
      omega
    rw [hnone, if_neg hk]
    rfl

/-- Where the registrations are tracked, they are exact. -/
theorem exact (h : Tracks u r) : u.Exact r := by
  constructor
  · -- Handles differ where the numbers do, modulo `2^32`.
    have hnumbers : u.selectors.map (·.1) = r.live.map fun e => ofNumber e.1 := by
      rw [h.selectors, List.map_map]
      rfl
    rw [hnumbers, List.nodup_iff_pairwise_ne, List.pairwise_map]
    refine h.apart.imp fun hne heq => ?_
    exact hne (ofNumber_inj.mp heq)
  · rw [h.selectors, List.map_map]
    refine List.map_congr_left fun e he => ?_
    have hgiven := h.getElem?_given e.1
    rw [if_pos (h.older e he)] at hgiven
    show (some (ofNumber e.1), e.2) = (u.given[e.1]?, e.2)
    rw [hgiven]

/-- A clear change does to the selectors what it does to the registrations. -/
theorem step (h : Tracks u r) (hclear : r.Clear c) : Tracks (u.step c) (r.step c) := by
  cases c with
  | register s =>
    constructor
    · show u.evaluator.nextSelector + 1 = UInt32.ofNat (r.count + 1)
      rw [h.next, UInt32.ofNat_add]
      rfl
    · show u.given ++ [⟨u.evaluator.nextSelector⟩] = (List.range (r.count + 1)).map ofNumber
      rw [h.next, h.given, List.range_succ, List.map_append]
      rfl
    · show (⟨u.evaluator.nextSelector⟩, s) :: u.selectors = _
      rw [h.next, h.selectors]
      rfl
    · intro e he
      show e.1 < r.count + 1
      rcases List.mem_cons.mp he with rfl | hlive
      · exact Nat.lt_succ_self _
      · exact Nat.lt_succ_of_lt (h.older e hlive)
    · -- The new registration is no multiple of `2^32` away from a live one.
      refine List.pairwise_cons.mpr ⟨?_, h.apart⟩
      intro e he heq
      exact hclear e he heq.symm
  | unregister k =>
    have hgiven := h.getElem?_given k
    by_cases hk : k < r.count
    · rw [if_pos hk] at hgiven
      have hstep : u.step (.unregister k)
          = { u with evaluator := (u.evaluator.unregisterSelector (ofNumber k)).2 } := by
        simp only [SelectorUse.step, hgiven]
      rw [hstep]
      refine ⟨h.next, h.given, ?_, ?_, h.apart.filter _⟩
      · -- Of the registered selectors, the handle is that of number `k` alone.
        show (u.evaluator.unregisterSelector _).2.scope.selectors = _
        rw [selectors_unregisterSelector]
        show u.selectors.filter _ = _
        rw [h.selectors, List.filter_map]
        refine congrArg (List.map _) (List.filter_congr fun e he => ?_)
        have hsame : ofNumber e.1 = ofNumber k ↔ e.1 = k := by
          rw [ofNumber_inj]
          exact ⟨hclear hk e he, fun heq => by rw [heq]⟩
        simp only [Function.comp_apply, ne_eq, hsame]
      · intro e he
        exact h.older e (List.mem_filter.mp he).1
    · -- The handle has not been given yet, and there is nothing to remove.
      rw [if_neg hk] at hgiven
      have hstep : u.step (.unregister k) = u := by
        simp only [SelectorUse.step, hgiven]
      have hlive : r.live.filter (·.1 ≠ k) = r.live := by
        rw [List.filter_eq_self]
        intro e he
        have holder := h.older e he
        simp only [ne_eq, decide_not, Bool.not_eq_true', decide_eq_false_iff_not]
        omega
      have hkept : r.step (.unregister k) = r := by
        show Registrations.mk r.count (r.live.filter (·.1 ≠ k)) = r
        rw [hlive]
      rw [hstep, hkept]
      exact h

/-- A change that leaves handles exact is clear. -/
theorem clear_of_exact (h : Tracks u r) (hexact : (u.step c).Exact (r.step c)) : r.Clear c := by
  cases c with
  | register s =>
    intro e he heq
    have hdistinct : ((⟨u.evaluator.nextSelector⟩ :: u.selectors.map (·.1)) : List SelectorId).Nodup :=
      hexact.distinct
    have hnew := (List.nodup_cons.mp hdistinct).1
    refine hnew ?_
    rw [h.next, h.selectors, List.map_map]
    exact List.mem_map.mpr ⟨e, he, ofNumber_inj.mpr heq⟩
  | unregister k =>
    intro hk e he heq
    by_contra hne
    -- The host expects that selector to stay, but no selector of its handle does.
    have hgiven := h.getElem?_given k
    rw [if_pos hk] at hgiven
    have hstep : u.step (.unregister k)
        = { u with evaluator := (u.evaluator.unregisterSelector (ofNumber k)).2 } := by
      simp only [SelectorUse.step, hgiven]
    have hstays : (u.given[e.1]?, e.2)
        ∈ (r.step (.unregister k)).live.map fun (k, s) => (u.given[k]?, s) := by
      refine List.mem_map.mpr ⟨e, ?_, rfl⟩
      exact List.mem_filter.mpr ⟨he, by simpa using hne⟩
    have hexpected := hexact.expected
    rw [hstep] at hexpected
    rw [← hexpected, h.getElem?_given, if_pos (h.older e he)] at hstays
    rcases List.mem_map.mp hstays with ⟨⟨id, s⟩, hkept, hpair⟩
    have hid : id = ofNumber e.1 := Option.some.inj (Prod.mk.inj hpair).1
    have hother : id ≠ ofNumber k := by simpa using (List.mem_filter.mp hkept).2
    exact hother (hid.trans (ofNumber_inj.mpr heq))

end Tracks

theorem tracks_new (size : StackSize) (objects : Objects σ) (world : World σ) :
    Tracks (.run size objects world []) (.run []) :=
  ⟨rfl, rfl, rfl, by simp [Registrations.run], .nil⟩

/-! ## Runs -/

section

variable {size : StackSize} {objects : Objects σ} {world : World σ}

/-- A change that is clear goes on being tracked. -/
theorem Tracks.run_concat {done : List (SelectorChange σ)} {c : SelectorChange σ}
    (h : Tracks (.run size objects world done) (.run done))
    (hclear : (Registrations.run done).Clear c) :
    Tracks (.run size objects world (done ++ [c])) (.run (done ++ [c])) := by
  rw [SelectorUse.run_concat, Registrations.run_concat]
  exact h.step hclear

/-- A run of clear changes is tracked throughout. -/
theorem tracks_run {done : List (SelectorChange σ)}
    (h : ∀ before c, before ++ [c] <+: done → (Registrations.run before).Clear c) :
    Tracks (.run size objects world done) (.run done) := by
  induction done using List.reverseRecOn with
  | nil => exact tracks_new size objects world
  | append_singleton done c ih =>
    have hbefore : Tracks (.run size objects world done) (.run done) := by
      refine ih fun before c' hfront => ?_
      exact h before c' (hfront.trans (List.prefix_append done [c]))
    exact hbefore.run_concat (h done c (List.prefix_refl _))

end

/-! ### Runs that are not too long -/

namespace Registrations

def made : SelectorChange σ → Nat
  | .register _ => 1
  | .unregister _ => 0

theorem count_step (r : Registrations σ) (c : SelectorChange σ) :
    (r.step c).count = r.count + made c := by
  cases c <;> rfl

/-- A longer run has made no fewer registrations. -/
theorem count_run_le {done changes : List (SelectorChange σ)} (h : done <+: changes) :
    (run done).count ≤ (run changes).count := by
  rcases h with ⟨rest, rfl⟩
  induction rest using List.reverseRecOn with
  | nil => simp
  | append_singleton rest c ih =>
    rw [← List.append_assoc, run_concat, count_step]
    omega

/-- Registrations that are live have been made. -/
theorem lt_count_of_live (changes : List (SelectorChange σ)) :
    ∀ e ∈ (run changes).live, e.1 < (run changes).count := by
  induction changes using List.reverseRecOn with
  | nil =>
    intro e he
    cases he
  | append_singleton changes c ih =>
    intro e he
    rw [run_concat] at he ⊢
    rw [count_step]
    cases c with
    | register s =>
      rcases List.mem_cons.mp he with rfl | hlive
      · exact Nat.lt_succ_self _
      · exact Nat.lt_succ_of_lt (ih e hlive)
    | unregister k => exact ih e (List.mem_filter.mp he).1

/-- As long as there are handles left, a change is clear. -/
theorem clear_of_count_le {done : List (SelectorChange σ)} {c : SelectorChange σ}
    (h : (run (done ++ [c])).count ≤ 4294967296) : (run done).Clear c := by
  rw [run_concat, count_step] at h
  have holder := lt_count_of_live done
  cases c with
  | register s =>
    intro e he
    have hlt := holder e he
    have hroom : (run done).count + 1 ≤ 4294967296 := h
    omega
  | unregister k =>
    intro hk e he heq
    have hlt := holder e he
    have hroom : (run done).count ≤ 4294967296 := h
    omega

end Registrations

/-- Handles are exact all along a run of `2^32` registrations or less. -/
theorem exact_of_count_le (size : StackSize) (objects : Objects σ) (world : World σ)
    {changes : List (SelectorChange σ)} (h : (Registrations.run changes).count ≤ 4294967296)
    {done : List (SelectorChange σ)} (hdone : done <+: changes) :
    (SelectorUse.run size objects world done).Exact (Registrations.run done) := by
  refine (tracks_run fun before c hfront => ?_).exact
  have hcount := Registrations.count_run_le (hfront.trans hdone)
  exact Registrations.clear_of_count_le (Nat.le_trans hcount h)

/-! ### All runs -/

/-- Handles are exact at every moment of a run just if each of its changes is clear when it is made:
then those of the registered selectors differ, and a handle removes the selector that it was given
for and no other.

This is so in every run of `2^32` registrations or less, and in a longer one as long as no selector
stays for so many and no handle is used again after so many. -/
theorem exact_iff_clear (size : StackSize) (objects : Objects σ) (world : World σ)
    (changes : List (SelectorChange σ)) :
    ((∀ done, done <+: changes →
        (SelectorUse.run size objects world done).Exact (Registrations.run done)) ↔
      ∀ done c, done ++ [c] <+: changes → (Registrations.run done).Clear c) ∧
    ((Registrations.run changes).count ≤ 4294967296 → ∀ done, done <+: changes →
      (SelectorUse.run size objects world done).Exact (Registrations.run done)) := by
  refine ⟨⟨?_, ?_⟩, fun hcount done => exact_of_count_le size objects world hcount⟩
  · intro hexact done c hdone
    -- The changes before are clear, and so the evaluator does what the host expects up to there.
    have htracks : Tracks (.run size objects world done) (.run done) := by
      have hbefore : done <+: changes := (List.prefix_append done [c]).trans hdone
      clear hdone
      induction done using List.reverseRecOn with
      | nil => exact tracks_new size objects world
      | append_singleton done c' ih =>
        have hearlier := ih ((List.prefix_append done [c']).trans hbefore)
        have hafter := hexact _ hbefore
        rw [SelectorUse.run_concat, Registrations.run_concat] at hafter
        exact hearlier.run_concat (hearlier.clear_of_exact hafter)
    have hafter := hexact _ hdone
    rw [SelectorUse.run_concat, Registrations.run_concat] at hafter
    exact htracks.clear_of_exact hafter
  · intro hclear done hdone
    refine (tracks_run fun before c hfront => ?_).exact
    exact hclear before c (hfront.trans hdone)

/-! ### A handle that is given twice -/

/-- Registers a selector and removes it again, `n` times; one registration has been before. -/
def SelectorChange.rounds (s : Selector σ) (n : Nat) : List (SelectorChange σ) :=
  (List.range n).flatMap fun k => [.register s, .unregister (k + 1)]

theorem SelectorChange.rounds_succ (s : Selector σ) (n : Nat) :
    rounds s (n + 1) = rounds s n ++ [.register s] ++ [.unregister (n + 1)] := by
  rw [rounds, List.range_succ, List.flatMap_append]
  simp [rounds]

/-- Registrations that are taken back leave the first one. -/
theorem tracks_rounds (size : StackSize) (objects : Objects σ) (world : World σ)
    (first s : Selector σ) {n : Nat} (hn : n < 4294967296) :
    Registrations.run (.register first :: SelectorChange.rounds s n) = ⟨n + 1, [(0, first)]⟩ ∧
      Tracks (.run size objects world (.register first :: SelectorChange.rounds s n))
        (.run (.register first :: SelectorChange.rounds s n)) := by
  induction n with
  | zero =>
    refine ⟨rfl, (tracks_new size objects world).run_concat (c := .register first) ?_⟩
    intro e he
    cases he
  | succ n ih =>
    rcases ih (by omega) with ⟨hrun, htracks⟩
    have hmade : Registrations.run (.register first :: SelectorChange.rounds s n ++ [.register s])
        = ⟨n + 2, [(n + 1, s), (0, first)]⟩ := by
      rw [Registrations.run_concat, hrun]
      rfl
    have hmade' : Tracks
        (.run size objects world (.register first :: SelectorChange.rounds s n ++ [.register s]))
        (.run (.register first :: SelectorChange.rounds s n ++ [.register s])) := by
      refine htracks.run_concat ?_
      rw [hrun]
      intro e he
      rw [List.mem_singleton.mp he]
      -- The first handle comes round again after `2^32` registrations only.
      show 0 % 4294967296 ≠ (n + 1) % 4294967296
      omega
    rw [SelectorChange.rounds_succ, ← List.cons_append, ← List.cons_append]
    constructor
    · rw [Registrations.run_concat, hmade]
      simp [Registrations.step]
    · refine hmade'.run_concat ?_
      rw [hmade]
      intro _ e he heq
      rcases List.mem_cons.mp he with rfl | he
      · rfl
      · rw [List.mem_singleton.mp he] at heq
        have hne : 0 % 4294967296 ≠ (n + 1) % 4294967296 := by omega
        exact absurd heq hne

/-- After `2^32` registrations the next handle is that of the first one. -/
theorem selectors_rounds (size : StackSize) (objects : Objects σ) (world : World σ)
    (first s : Selector σ) {n : Nat} (hn : n + 1 = 4294967296) {u : SelectorUse σ}
    (hrun : u = .run size objects world
      (.register first :: SelectorChange.rounds s n ++ [.register s])) :
    u.selectors = [(⟨0⟩, s), (⟨0⟩, first)] ∧ u.given[n + 1]? = some ⟨0⟩ := by
  rcases tracks_rounds size objects world first s (by omega : n < 4294967296) with ⟨hcount, htracks⟩
  rw [hcount] at htracks
  rw [SelectorUse.run_concat] at hrun
  have hnext : ofNumber (n + 1) = ⟨0⟩ := ofNumber_inj.mpr (by omega : (n + 1) % _ = 0 % _)
  rw [hrun]
  constructor
  · show (⟨_⟩, s) :: SelectorUse.selectors _ = _
    rw [htracks.next, htracks.selectors]
    show [(ofNumber (n + 1), s), (ofNumber 0, first)] = _
    rw [hnext]
    rfl
  · show (SelectorUse.given _ ++ [⟨_⟩])[n + 1]? = _
    rw [htracks.next, htracks.given, List.getElem?_append_right (by simp)]
    show [ofNumber (n + 1)][_]? = _
    rw [hnext]
    simp

/-- A selector that stays registered while `2^32 - 1` others come and go has the handle of the next
one, and is removed with it. -/
theorem handle_given_twice :
    let first : Selector Unit := .readOnly fun _ _ => pure (some (.int 1))
    let last : Selector Unit := .readOnly fun _ _ => pure (some (.int 2))
    let changes : List (SelectorChange Unit) :=
      .register first :: SelectorChange.rounds last 4294967295 ++ [.register last]
    let u := SelectorUse.run {} {} ⟨(), 0⟩ changes
    u.selectors = [(⟨0⟩, last), (⟨0⟩, first)] ∧ ¬(u.selectors.map (·.1)).Nodup ∧
      u.given[4294967296]? = some ⟨0⟩ ∧
      (u.evaluator.unregisterSelector ⟨0⟩).2.scope.selectors = [] := by
  intro first last changes u
  have hrounds := selectors_rounds _ _ _ first last (n := 4294967295) (by omega) (u := u) rfl
  -- The run has `2^32` changes, and no step may compute it.
  clear_value u
  rcases hrounds with ⟨hselectors, hgiven⟩
  refine ⟨hselectors, ?_, hgiven, ?_⟩
  · rw [hselectors]
    simp
  · rw [SelectorUse.selectors] at hselectors
    rw [selectors_unregisterSelector, hselectors]
    simp

end Edict
