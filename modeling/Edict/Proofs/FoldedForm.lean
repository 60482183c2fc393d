import Edict.Proofs.Inertness

namespace Edict

/-! # Folded expressions

Not every operation on literals can be folded away: one that has no value stays, and that is an
element of an object which has `void` there.  An expression is folded if no others are left in it.
Folding makes every expression folded, and what is folded stays as it is, as long as the objects in it
do not change their elements.

Main statements:

* `elements_void_of_void`: an operation on literals without a value is such an element, and it is one
  for good;
* `isFolded_of_fold`, `fold_of_isFolded`: folding makes expressions folded and leaves them so;
* `fold_idempotent`: folding once more changes nothing, and folding never makes a tree larger.
-/

open EvalM

/-- From the world `w` on, the object has the same elements whenever it is asked for them, if it has
any.  What asking it does to the world is another matter. -/
def Objects.KeepsElements {σ : Type} (host : Objects σ) (w : World σ) (o : ObjectRef) : Prop :=
  o.isIndexed = true → ∀ index w₁ w₂, host.Asked w w₁ → host.Asked w w₂ →
    ((host.at? o index).run w₁).1 = ((host.at? o index).run w₂).1

section

variable {σ : Type} {scope : Scope σ} {s : Stack} {w : World σ}

/-! ## Operations without a value -/

/-- The operation on literals has no value, whenever objects are asked. -/
def IsVoid (scope : Scope σ) (s : Stack) (w : World σ) (op : Op) (operands : List Node) : Prop :=
  ∀ w₁, scope.objects.Asked w w₁ →
    ∃ w₂, (evalValue (.apply op operands)).perform scope ⟨s, w₁⟩ = (.ok .void, ⟨s, w₂⟩)

/-- Where the owner fits on the stack, its element is asked for and pushed and popped. -/
theorem perform_evalValue_element (scope : Scope σ) {o : ObjectRef}
    (hroom : s.overflow? (.object o) = none) (index : Int32) (w : World σ) :
    (evalValue (.apply .member [.object o, .int index])).perform scope ⟨s, w⟩
      = match (scope.objects.element o index).run w with
        | (.ok v, w') => (popped (pushValue v)).perform scope ⟨s, w'⟩
        | (.error e, w') => (.error e, ⟨s, w'⟩) := by
  have howner : (eval (.object o) : EvalM σ ValueInfo) = pushValue (.object o) :=
    eval_of_literal? rfl
  rw [evalValue, eval_member, popped_bind, perform_bind, howner, perform_popped_pushValue, hroom]
  show (popped (do pushValue (← onWorldExcept (scope.objects.element o index)))).perform scope
    ⟨s, w⟩ = _
  rw [popped_bind, perform_bind, perform_onWorldExcept]
  rcases (scope.objects.element o index).run w with ⟨e | v, w'⟩
  · rfl
  · rfl

/-- What is popped as `void` was pushed as `void`. -/
theorem eq_void_of_popped {v : Value} {m m' : Machine σ}
    (h : (popped (pushValue v)).perform scope m = (.ok .void, m')) : v = .void := by
  rw [perform_popped_pushValue] at h
  split at h
  · cases h
    rfl
  · cases h

/-- The element that an object without elements has, or one that is `void`. -/
theorem run_element_eq_void_iff {host : Objects σ} {o : ObjectRef} {index : Int32} :
    ((host.element o index).run w).1 = .ok .void ↔
      (o.isIndexed = true → ((host.at? o index).run w).1 = some .void) := by
  rw [Objects.run_element]
  cases o.isIndexed with
  | false => simp
  | true =>
    rcases (host.at? o index).run w with ⟨_ | v, w'⟩
    · simp
    · simp

/-- An operation on literals that has had no value is an element of an object, and has none whenever
objects are asked, if the object keeps its elements. -/
theorem isVoid_of_void {op : Op} {operands : List Node} {w₁ w₂ : World σ}
    (hliterals : operands.all Node.isLiteral = true)
    (hkeeps : ∀ n ∈ operands, n.ObjectsIn (scope.objects.KeepsElements w))
    (hasked : scope.objects.Asked w w₁)
    (hvoid : (evalValue (.apply op operands)).perform scope ⟨s, w₁⟩ = (.ok .void, ⟨s, w₂⟩)) :
    IsVoid scope s w op operands := by
  have hasking := asking_evalValue (p := fun _ => True) op hliterals fun _ _ _ _ => trivial
  rcases (hasking.asked (fun _ => trivial) hvoid).2.2 .void rfl with ⟨-, helement⟩
  rcases helement rfl with ⟨o, index, rfl, rfl⟩
  -- There was room for the object on this stack, or there would have been an error.
  have hroom : s.overflow? (.object o) = none := by
    cases hoverflow : s.overflow? (.object o) with
    | none => rfl
    | some e =>
      have howner : (eval (.object o) : EvalM σ ValueInfo) = pushValue (.object o) :=
        eval_of_literal? rfl
      rw [evalValue, eval_member, popped_bind, perform_bind, howner, perform_popped_pushValue,
        hoverflow] at hvoid
      cases hvoid
  have hbefore : ((scope.objects.element o index).run w₁).1 = .ok .void := by
    rw [perform_evalValue_element scope hroom] at hvoid
    rcases hrun : (scope.objects.element o index).run w₁ with ⟨e | v, w'⟩
    · rw [hrun] at hvoid
      cases hvoid
    · rw [hrun] at hvoid
      rw [eq_void_of_popped hvoid]
  intro w₃ hasked'
  have hobject : scope.objects.KeepsElements w o :=
    hkeeps (.object o) List.mem_cons_self o (Node.mem_subtrees_self _)
  have hnow : ((scope.objects.element o index).run w₃).1 = .ok .void := by
    rw [run_element_eq_void_iff] at hbefore ⊢
    intro hindexed
    rw [← hbefore hindexed]
    exact hobject hindexed index w₃ w₁ hasked' hasked
  rw [perform_evalValue_element scope hroom]
  rcases hrun : (scope.objects.element o index).run w₃ with ⟨e | v, w'⟩
  · rw [hrun] at hnow
    cases hnow
  · rw [hrun] at hnow
    cases hnow
    exact ⟨w', rfl⟩

/-! ## The ways to a result -/

/-- What the relation says of everything that stands on its right holds of the whole list. -/
theorem forall_mem_of_forall₂ {α β : Type} {R : α → β → Prop} {Q : β → Prop} {as : List α}
    {bs : List β} (h : List.Forall₂ R as bs) (hQ : ∀ a b, a ∈ as → b ∈ bs → R a b → Q b) :
    ∀ b ∈ bs, Q b := by
  induction h with
  | nil => simp
  | @cons a b as bs hab _ ih =>
    refine List.forall_mem_cons.mpr ⟨hQ a b List.mem_cons_self List.mem_cons_self hab, ?_⟩
    exact ih fun a b ha hb => hQ a b (List.mem_cons_of_mem _ ha) (List.mem_cons_of_mem _ hb)

/-- A relation between an expression and what it is folded to, with one case for each way to get a
result: what has no parts stays, lists and new objects keep their place with their parts folded, and
so does an operation, unless its folded operands are literals and it has a value with a literal. -/
theorem fold_ok_inductionOn {motive : Node → Node → Prop}
    (leaf : ∀ n, (∀ op operands, n ≠ .apply op operands) →
      (∀ element items, n ≠ .list element items) →
      (∀ typeName fields, n ≠ .construct typeName fields) → motive n n)
    (list : ∀ element items items', List.Forall₂ motive items items' →
      motive (.list element items) (.list element items'))
    (construct : ∀ typeName fields fields', List.Forall₂ motive fields fields' →
      motive (.construct typeName fields) (.construct typeName fields'))
    (kept : ∀ op operands operands', List.Forall₂ motive operands operands' →
      (operands'.all Node.isLiteral = true → ∃ w₁ w₂, scope.objects.Asked w w₁ ∧
        (evalValue (.apply op operands')).perform scope ⟨s, w₁⟩ = (.ok .void, ⟨s, w₂⟩)) →
      motive (.apply op operands) (.apply op operands'))
    (replaced : ∀ op operands v literal, Node.ofValue? v = some literal →
      motive (.apply op operands) literal)
    {n n' : Node} {w₀ : World σ} {m' : Machine σ} (hasked : scope.objects.Asked w w₀)
    (hfold : (fold n).perform scope ⟨s, w₀⟩ = (.ok n', m')) : motive n n' := by
  induction n using fold.induct
    (motive_2 := fun ns => ∀ ns' w₀ m', scope.objects.Asked w w₀ →
      (foldAll ns).perform scope ⟨s, w₀⟩ = (.ok ns', m') → List.Forall₂ motive ns ns')
    generalizing n' w₀ m'
  with
  | case1 op operands ih =>
    rw [fold] at hfold
    rcases perform_bind_ok scope hfold with ⟨operands', m₁, hoperands, hrest⟩
    have hall := ih _ _ _ hasked hoperands
    rcases m₁ with ⟨s₁, w₁⟩
    rcases asked_foldAll hoperands with ⟨hstack, hasked₁⟩
    obtain rfl : s₁ = s := hstack
    by_cases hliterals : operands'.all Node.isLiteral = true
    · simp only [hliterals, if_true] at hrest
      rw [foldLiteral] at hrest
      rcases perform_bind_ok scope hrest with ⟨v, m₂, hvalue, hliteral⟩
      have hvalue := perform_of_restoring_ok hvalue
      cases hliteral
      cases hof : Node.ofValue? v with
      | none =>
        -- Only `void` has no literal.
        obtain rfl : v = .void := by cases v <;> first | rfl | cases hof
        have hasking := asking_evalValue (p := fun _ => True) op hliterals fun _ _ _ _ => trivial
        rcases m' with ⟨s₂, w₂⟩
        obtain rfl : s₂ = s₁ := (hasking.asked (fun _ => trivial) hvalue).1
        exact kept op operands operands' hall fun _ => ⟨w₁, w₂, hasked.trans hasked₁, hvalue⟩
      | some literal => exact replaced op operands v literal hof
    · simp only [hliterals] at hrest
      cases hrest
      exact kept op operands operands' hall fun h => absurd h hliterals
  | case2 element items ih =>
    rw [fold] at hfold
    rcases perform_bind_ok scope hfold with ⟨items', m₁, hitems, hrest⟩
    cases hrest
    exact list element items items' (ih _ _ _ hasked hitems)
  | case3 typeName fields ih =>
    rw [fold] at hfold
    rcases perform_bind_ok scope hfold with ⟨fields', m₁, hfields, hrest⟩
    cases hrest
    exact construct typeName fields fields' (ih _ _ _ hasked hfields)
  | case4 n happly hlist hconstruct =>
    rw [fold_leaf happly hlist hconstruct] at hfold
    cases hfold
    exact leaf n happly hlist hconstruct
  | case5 ns' w₀ m' _ hfold =>
    rw [foldAll] at hfold
    cases hfold
    exact .nil
  | case6 n ns hn hns ns' w₀ m' hasked hfold =>
    rw [foldAll] at hfold
    rcases perform_bind_ok scope hfold with ⟨n', m₁, hfirst, hbehind⟩
    rcases m₁ with ⟨s₁, w₁⟩
    rcases asked_fold hfirst with ⟨hstack, hasked₁⟩
    obtain rfl : s₁ = s := hstack
    rcases perform_bind_ok scope hbehind with ⟨ns'', m₂, hrest, hlist⟩
    cases hlist
    exact .cons (hn hasked hfirst) (hns _ _ _ (hasked.trans hasked₁) hrest)

/-! ## Folded expressions -/

/-- The operations on literals in the tree have no value, whenever objects are asked. -/
def Node.IsFolded (scope : Scope σ) (s : Stack) (w : World σ) (n : Node) : Prop :=
  ∀ op operands, .apply op operands ∈ n.subtrees → operands.all Node.isLiteral = true →
    IsVoid scope s w op operands

/-- The parts of a folded expression are folded. -/
theorem Node.IsFolded.of_mem {n part : Node} {parts : List Node} (h : n.IsFolded scope s w)
    (hparts : n.subtrees = n :: Node.allSubtrees parts) (hpart : part ∈ parts) :
    part.IsFolded scope s w :=
  fun op operands hmem =>
    h op operands ((Node.mem_subtrees_iff hparts).mpr (.inr ⟨part, hpart, hmem⟩))

/-- An expression with folded parts is folded if it has no value or is no operation on literals. -/
theorem Node.IsFolded.of_parts {n : Node} {parts : List Node}
    (hparts : n.subtrees = n :: Node.allSubtrees parts)
    (hself : ∀ op operands, n = .apply op operands → operands.all Node.isLiteral = true →
      IsVoid scope s w op operands)
    (h : ∀ part ∈ parts, part.IsFolded scope s w) : n.IsFolded scope s w := by
  intro op operands hmem
  rcases (Node.mem_subtrees_iff hparts).mp hmem with heq | ⟨part, hpart, hmem⟩
  · exact hself op operands heq.symm
  · exact h part hpart op operands hmem

/-- A leaf is folded. -/
theorem Node.IsFolded.of_leaf {n : Node} (happly : ∀ op operands, n ≠ .apply op operands)
    (hlist : ∀ element items, n ≠ .list element items)
    (hconstruct : ∀ typeName fields, n ≠ .construct typeName fields) : n.IsFolded scope s w := by
  intro op operands hmem
  rw [Node.subtrees_leaf happly hlist hconstruct, List.mem_singleton] at hmem
  exact (happly op operands hmem.symm).elim

/-- What is folded stays as it is. -/
theorem fold_of_isFolded (n : Node) (h : n.IsFolded scope s w) {w₀ : World σ}
    (hasked : scope.objects.Asked w w₀) :
    ∃ w', (fold n).perform scope ⟨s, w₀⟩ = (.ok n, ⟨s, w'⟩) := by
  -- The world may change while objects are asked, so it is general in the induction.
  induction n using fold.induct
    (motive_2 := fun ns => (∀ n ∈ ns, n.IsFolded scope s w) → ∀ w₀, scope.objects.Asked w w₀ →
      ∃ w', (foldAll ns).perform scope ⟨s, w₀⟩ = (.ok ns, ⟨s, w'⟩))
    generalizing w₀
  with
  | case1 op operands ih =>
    rcases ih (fun _ => h.of_mem (Node.subtrees_apply op operands)) w₀ hasked with ⟨w₁, hoperands⟩
    rw [fold, perform_bind, hoperands]
    by_cases hliterals : operands.all Node.isLiteral = true
    · -- The operation has no value, and so it stays.
      rcases h op operands (Node.mem_subtrees_self _) hliterals w₁
        (hasked.trans (asked_foldAll hoperands).2) with ⟨w₂, hvoid⟩
      simp only [hliterals, if_true]
      refine ⟨w₂, ?_⟩
      rw [foldLiteral, perform_bind, perform_restoring, hvoid]
      rfl
    · simp only [hliterals]
      exact ⟨w₁, rfl⟩
  | case2 element items ih =>
    rcases ih (fun _ => h.of_mem (Node.subtrees_list element items)) w₀ hasked with ⟨w₁, hitems⟩
    rw [fold, perform_bind, hitems]
    exact ⟨w₁, rfl⟩
  | case3 typeName fields ih =>
    rcases ih (fun _ => h.of_mem (Node.subtrees_construct typeName fields)) w₀ hasked with
      ⟨w₁, hfields⟩
    rw [fold, perform_bind, hfields]
    exact ⟨w₁, rfl⟩
  | case4 n happly hlist hconstruct =>
    rw [fold_leaf happly hlist hconstruct]
    exact ⟨w₀, rfl⟩
  | case5 _ w₀ _ =>
    rw [foldAll]
    exact ⟨w₀, rfl⟩
  | case6 n ns hn hns h w₀ hasked =>
    rcases List.forall_mem_cons.mp h with ⟨hfolded, hfoldeds⟩
    rcases hn hfolded hasked with ⟨w₁, hfirst⟩
    rcases hns hfoldeds w₁ (hasked.trans (asked_fold hfirst).2) with ⟨w₂, hrest⟩
    rw [foldAll, perform_bind, hfirst]
    dsimp only
    rw [perform_bind, hrest]
    exact ⟨w₂, rfl⟩

/-- What folding results in is folded, if the objects in it keep their elements. -/
theorem isFolded_of_fold {n n' : Node} {m' : Machine σ}
    (hfold : (fold n).perform scope ⟨s, w⟩ = (.ok n', m'))
    (hkeeps : n'.ObjectsIn (scope.objects.KeepsElements w)) : n'.IsFolded scope s w := by
  have hparts : ∀ {parts parts' : List Node},
      List.Forall₂ (fun _ n' => n'.ObjectsIn (scope.objects.KeepsElements w) →
        n'.IsFolded scope s w) parts parts' →
      (∀ part' ∈ parts', part'.ObjectsIn (scope.objects.KeepsElements w)) →
      ∀ part' ∈ parts', part'.IsFolded scope s w :=
    fun hall hkeeps => forall_mem_of_forall₂ hall fun _ part' _ hmem h => h (hkeeps part' hmem)
  refine fold_ok_inductionOn
    (motive := fun _ n' => n'.ObjectsIn (scope.objects.KeepsElements w) → n'.IsFolded scope s w)
    ?leaf ?list ?construct ?kept ?replaced .refl hfold hkeeps
  case leaf => exact fun n happly hlist hconstruct _ => .of_leaf happly hlist hconstruct
  case list =>
    intro element items items' hitems hkeeps
    have hsubtrees := Node.subtrees_list element items'
    exact .of_parts hsubtrees (by simp) (hparts hitems fun _ => hkeeps.of_mem hsubtrees)
  case construct =>
    intro typeName fields fields' hfields hkeeps
    have hsubtrees := Node.subtrees_construct typeName fields'
    exact .of_parts hsubtrees (by simp) (hparts hfields fun _ => hkeeps.of_mem hsubtrees)
  -- An operation on literals that was kept was `void`, and is so whenever it is asked again.
  case kept =>
    intro op operands operands' hoperands hvoid hkeeps
    have hsubtrees := Node.subtrees_apply op operands'
    refine .of_parts hsubtrees ?_ (hparts hoperands fun _ => hkeeps.of_mem hsubtrees)
    rintro _ _ ⟨⟩ hliterals
    rcases hvoid hliterals with ⟨w₁, w₂, hasked, hvoid⟩
    exact isVoid_of_void hliterals (fun _ => hkeeps.of_mem hsubtrees) hasked hvoid
  case replaced =>
    intro op operands v literal hliteral _
    cases v <;> cases hliteral <;> exact .of_leaf (by simp) (by simp) (by simp)

end

/-! ## Size -/

/-- Trees that are no larger one by one are no larger together. -/
theorem Node.sizes_le_of_forall₂ {ns ns' : List Node}
    (h : List.Forall₂ (fun n n' => n'.size ≤ n.size) ns ns') : Node.sizes ns' ≤ Node.sizes ns := by
  induction h with
  | nil => exact Nat.le_refl _
  | cons hn _ ih =>
    rw [Node.sizes, Node.sizes]
    exact Nat.add_le_add hn ih

theorem Node.size_pos (n : Node) : 0 < n.size := by
  unfold Node.size
  split
  all_goals omega

/-- Folding does not make a tree larger. -/
theorem size_le_of_fold {σ : Type} {scope : Scope σ} {n n' : Node} {m m' : Machine σ}
    (hfold : (fold n).perform scope m = (.ok n', m')) : n'.size ≤ n.size := by
  refine fold_ok_inductionOn (motive := fun n n' => n'.size ≤ n.size)
    ?leaf ?list ?construct ?kept ?replaced .refl hfold
  case leaf => exact fun n _ _ _ => Nat.le_refl _
  case list =>
    intro element items items' hitems
    rw [Node.size, Node.size]
    exact Nat.add_le_add_left (Node.sizes_le_of_forall₂ hitems) 1
  case construct =>
    intro typeName fields fields' hfields
    rw [Node.size, Node.size]
    exact Nat.add_le_add_left (Node.sizes_le_of_forall₂ hfields) 1
  case kept =>
    intro op operands operands' hoperands _
    rw [Node.size, Node.size]
    exact Nat.add_le_add_left (Node.sizes_le_of_forall₂ hoperands) 1
  case replaced =>
    intro op operands v literal hliteral
    have hone : literal.size = 1 := by cases v <;> cases hliteral <;> rw [Node.size] <;> simp
    rw [hone]
    exact Node.size_pos _

/-- Folding what comes of folding changes nothing, on the machine that the first folding leaves, which
has the stack that it began on; the result is folded, and it is made of no more expressions than what
it comes from.  The objects that are left in the tree must give the same elements both times; of a
tree without objects this asks nothing. -/
theorem fold_idempotent {σ : Type} {scope : Scope σ} {n n' : Node} {m m' : Machine σ}
    (hfold : (fold n).perform scope m = (.ok n', m'))
    (hkeeps : n'.ObjectsIn (scope.objects.KeepsElements m.world)) :
    m'.stack = m.stack ∧ (∃ m'', (fold n').perform scope m' = (.ok n', m'') ∧ m''.stack = m.stack) ∧
      n'.IsFolded scope m.stack m.world ∧ n'.size ≤ n.size := by
  rcases asked_fold hfold with ⟨hstack, hasked⟩
  have hfolded := isFolded_of_fold hfold hkeeps
  rcases fold_of_isFolded n' hfolded hasked with ⟨w', hagain⟩
  rw [← hstack] at hagain
  exact ⟨hstack, ⟨_, hagain, hstack⟩, hfolded, size_le_of_fold hfold⟩

/-- A sequence of the host with `void` for its first element, which counts how often it is asked. -/
def Scope.counting : Scope Nat :=
  { Scope.blank with
    objects := { element? := fun _ _ w => (some .void, { w with state := w.state + 1 }) } }

/-- The first element of a sequence of the host. -/
def firstElement : Node :=
  .apply .member [.object ⟨0, .host "Sequence", "Sequence", .hosted .object, false⟩, .int 0]

/-- An empty stack with room for one value, when elements have been asked for so often. -/
def Machine.counted (asked : Nat) : Machine Nat := ⟨.ofSize ⟨4, 1⟩, ⟨asked, 1⟩⟩

/-- `o.0 + (1 + 1)`, with `void` for the element `o.0`, is folded to `o.0 + 2` and then left as it is,
although the host can tell that the element has been asked for again. -/
theorem fold_idempotent_firstElement :
    let n : Node := .apply .add [firstElement, .apply .add [.int 1, .int 1]]
    let n' : Node := .apply .add [firstElement, .int 2]
    (fold n).perform .counting (.counted 0) = (.ok n', .counted 1) ∧
      (∃ m'', (fold n').perform .counting (.counted 1) = (.ok n', m'')) ∧ n'.size ≤ n.size := by
  intro n n'
  have hfirst : (fold firstElement).perform .counting (.counted 0)
      = (.ok firstElement, .counted 1) := rfl
  have hfold : (fold n).perform .counting (.counted 0) = (.ok n', .counted 1) := by
    rw [fold, perform_bind, foldAll, perform_bind, hfirst]
    rfl
  have hkeeps : n'.ObjectsIn (Scope.counting.objects.KeepsElements (Machine.counted 0).world) := by
    intro o _ _ index w₁ w₂ _ _
    unfold Objects.at?
    split
    · split <;> rfl
    · rfl
  rcases fold_idempotent hfold hkeeps with ⟨-, ⟨m'', hagain, -⟩, -, hsize⟩
  exact ⟨hfold, ⟨m'', hagain⟩, hsize⟩

end Edict
