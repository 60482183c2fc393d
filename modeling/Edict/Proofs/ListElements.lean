import Edict.Proofs.Inertness
import Edict.Proofs.Refinement

namespace Edict

/-! # Lists hold the values of their elements

A list literal evaluates its elements one after the other, and gives up at the first that has no
value or one of the wrong kind.  The list that is made answers for `Count` and for every index, right
behind the literal and behind anything else that comes to the same list later.

Main statements:

* `evalItems_eq_ok_iff`, `evalItems_eq_error_iff`: what evaluating the elements comes to;
* `evalValue_list_iff`: what a list literal comes to, and what the list answers.
-/

open EvalM

/-! ## Elements -/

/-- The value can be an element of a list of the kind, and this is the element that it is.  Lists of
floats take integers too; lists of anything also take `void` and `null`. -/
inductive IsElement : Kind → Value → Value → Prop
  | int (v : Int32) : IsElement .int (.int v) (.int v)
  | float (v : Binary32) : IsElement .float (.float v) (.float v)
  | promoted (v : Int32) : IsElement .float (.int v) (.float (promote v))
  | bool (v : Bool) : IsElement .bool (.bool v) (.bool v)
  | string (v : String) : IsElement .string (.str v) (.str v)
  | object (v : Value) : IsElement .object v v
  | void (v : Value) : IsElement .void v v

theorem asElement_eq_ok_iff {element : Kind} {v u : Value} :
    v.asElement element = .ok u ↔ IsElement element v u := by
  constructor
  · intro h
    cases element <;> cases v <;> cases h <;> constructor
  · rintro (_ | _ | _ | _ | _ | _ | _) <;> rfl

theorem asElement_eq_error_iff {element : Kind} {v : Value} {e : EvalError} :
    v.asElement element = .error e ↔
      (∀ u, ¬ IsElement element v u) ∧ e = .typeMismatch element v.kind := by
  simp only [← asElement_eq_ok_iff]
  cases element <;> cases v <;>
    simp [Value.asElement, Value.asInt, Value.asFloat, Value.asBool, Value.asString, Except.map,
      eq_comm]

section

variable {σ : Type}

/-- Each of the expressions is evaluated once on the stack `s`, from left to right and each in the
world that the one before it leaves, and each has a value that can be an element of a list of the
kind. -/
inductive Collects (scope : Scope σ) (s : Stack) (element : Kind) :
    List Node → World σ → List Value → World σ → Prop
  | nil {w : World σ} : Collects scope s element [] w [] w
  | cons {n : Node} {ns : List Node} {v u : Value} {us : List Value} {w w₁ w' : World σ}
      (hvalue : (evalValue n).perform scope ⟨s, w⟩ = (.ok v, ⟨s, w₁⟩))
      (helement : IsElement element v u) (hrest : Collects scope s element ns w₁ us w') :
      Collects scope s element (n :: ns) w (u :: us) w'

/-- The expression has no value, or none that can be an element of a list of the kind; the error
tells which. -/
inductive Spoils (scope : Scope σ) (s : Stack) (element : Kind) (n : Node) (w : World σ) :
    EvalError → Machine σ → Prop
  | fault {e : EvalError} {m' : Machine σ}
      (h : (evalValue n).perform scope ⟨s, w⟩ = (.error e, m')) : Spoils scope s element n w e m'
  | kind {v : Value} {m' : Machine σ} (h : (evalValue n).perform scope ⟨s, w⟩ = (.ok v, m'))
      (hv : ∀ u, ¬ IsElement element v u) :
      Spoils scope s element n w (.typeMismatch element v.kind) m'

variable {scope : Scope σ} {s : Stack} {element : Kind} {w w' : World σ} {us : List Value}
  {ns : List Node}

theorem Collects.length (h : Collects scope s element ns w us w') : us.length = ns.length := by
  induction h with
  | nil => rfl
  | cons _ _ _ ih => rw [List.length_cons, List.length_cons, ih]

/-! ## Evaluating the elements -/

theorem exists_world_of_evalValue (hroom : s.HasRoom) {n : Node} {m' : Machine σ}
    {outcome : Except EvalError Value}
    (h : (evalValue n).perform scope ⟨s, w⟩ = (outcome, m')) : ∃ w', m' = ⟨s, w'⟩ := by
  rw [perform_evalValue scope hroom] at h
  cases h
  exact ⟨_, rfl⟩

/-- The first element is evaluated, then read as what the list wants, and then the others follow. -/
theorem perform_evalItems_cons (hroom : s.HasRoom) (element : Kind) (n : Node) (ns : List Node)
    (w : World σ) :
    (evalItems element (n :: ns)).perform scope ⟨s, w⟩
      = match (evalValue n).perform scope ⟨s, w⟩ with
        | (.error e, m') => (.error e, m')
        | (.ok v, m') => match v.asElement element with
          | .error e => (.error e, m')
          | .ok u => match (evalItems element ns).perform scope m' with
            | (.error e, m'') => (.error e, m'')
            | (.ok us, m'') => (.ok (u :: us), m'') := by
  rw [evalItems, perform_bind, (follows_eval hroom n).perform_eq, perform_evalValue scope hroom]
  rcases n.meaning.perform scope w with ⟨e | v, w₁⟩
  · rfl
  · dsimp only [onTop]
    rw [perform_bind, perform_popElement hroom]
    cases v.asElement element with
    | error e => rfl
    | ok u =>
      dsimp only
      rw [perform_bind]
      rcases (evalItems element ns).perform scope ⟨s, w₁⟩ with ⟨e | us, m''⟩
      · rfl
      · rfl

/-- Evaluating the elements of a list collects them, -/
theorem evalItems_eq_ok_iff (hroom : s.HasRoom) {m' : Machine σ} :
    (evalItems element ns).perform scope ⟨s, w⟩ = (.ok us, m') ↔
      ∃ w', m' = ⟨s, w'⟩ ∧ Collects scope s element ns w us w' := by
  constructor
  · intro h
    -- The induction follows the list; the world and the elements so far go along.
    induction ns generalizing w us with
    | nil =>
      rw [evalItems] at h
      cases h
      exact ⟨w, rfl, .nil⟩
    | cons n ns ih =>
      rw [perform_evalItems_cons hroom] at h
      split at h
      · cases h
      · next v m₁ hvalue =>
        rcases exists_world_of_evalValue hroom hvalue with ⟨w₁, rfl⟩
        split at h
        · cases h
        · next u helement =>
          split at h
          · cases h
          · next us' m'' hrest =>
            cases h
            rcases ih hrest with ⟨w', hw', hcollects⟩
            exact ⟨w', hw', .cons hvalue (asElement_eq_ok_iff.mp helement) hcollects⟩
  · rintro ⟨w', rfl, h⟩
    induction h with
    | nil => rw [evalItems]; rfl
    | cons hvalue helement _ ih =>
      simp only [perform_evalItems_cons hroom, hvalue, asElement_eq_ok_iff.mpr helement, ih]

/-- or ends with the first that spoils the list; what stands behind that one is not evaluated. -/
theorem evalItems_eq_error_iff (hroom : s.HasRoom) {e : EvalError} {m' : Machine σ} :
    (evalItems element ns).perform scope ⟨s, w⟩ = (.error e, m') ↔
      ∃ before n after us w₁, ns = before ++ n :: after ∧
        Collects scope s element before w us w₁ ∧ Spoils scope s element n w₁ e m' := by
  constructor
  · intro h
    -- The first item that spoils the list is this one or one behind it.
    induction ns generalizing w with
    | nil =>
      rw [evalItems] at h
      cases h
    | cons n ns ih =>
      rw [perform_evalItems_cons hroom] at h
      split at h
      · next e' m₁ hfault =>
        cases h
        exact ⟨[], n, ns, [], w, rfl, .nil, .fault hfault⟩
      · next v m₁ hvalue =>
        rcases exists_world_of_evalValue hroom hvalue with ⟨w₁, rfl⟩
        split at h
        · next e' helement =>
          cases h
          rcases asElement_eq_error_iff.mp helement with ⟨hnone, rfl⟩
          exact ⟨[], n, ns, [], w, rfl, .nil, .kind hvalue hnone⟩
        · next u helement =>
          split at h
          · next e' m'' hrest =>
            cases h
            rcases ih hrest with ⟨before, k, after, us, w₂, rfl, hbefore, hspoils⟩
            exact ⟨n :: before, k, after, u :: us, w₂, rfl,
              .cons hvalue (asElement_eq_ok_iff.mp helement) hbefore, hspoils⟩
          · cases h
  · rintro ⟨before, n, after, us, w₁, rfl, hbefore, hspoils⟩
    induction hbefore with
    | nil =>
      rw [List.nil_append, perform_evalItems_cons hroom]
      cases hspoils with
      | fault hfault => rw [hfault]
      | kind hvalue hnone =>
        simp only [hvalue, asElement_eq_error_iff.mpr ⟨hnone, rfl⟩]
    | cons hvalue helement _ ih =>
      simp only [List.cons_append, perform_evalItems_cons hroom, hvalue,
        asElement_eq_ok_iff.mpr helement, ih hspoils]

/-! ## Lists -/

/-- The list of the elements that is made in a world. -/
def World.listOf (w : World σ) (element : Kind) (us : List Value) : ObjectRef :=
  .ofList w.nextIdentity (if element = .void then .object else element) us

/-- The world in which one object more has been made. -/
def World.grown (w : World σ) : World σ := { w with nextIdentity := w.nextIdentity + 1 }

theorem perform_evalValue_list (hroom : s.HasRoom) (element : Kind) (items : List Node)
    (w : World σ) :
    (evalValue (.list element items)).perform scope ⟨s, w⟩
      = match (evalItems element items).perform scope ⟨s, w⟩ with
        | (.error e, m') => (.error e, m')
        | (.ok us, m') => (.ok (.object (m'.world.listOf element us)), ⟨s, m'.world.grown⟩) := by
  rw [evalValue, eval, popped_bind, perform_bind]
  rcases hitems : (evalItems element items).perform scope ⟨s, w⟩ with ⟨e | us, m'⟩
  · rfl
  · rcases (evalItems_eq_ok_iff hroom).mp hitems with ⟨w', rfl, -⟩
    dsimp only
    rw [pushList, popped_bind, perform_bind, perform_onWorld]
    dsimp only
    rw [perform_popped_pushValue, hroom.overflow?_eq_none]
    rfl

theorem perform_evalValue_member {owner : Node} {o : ObjectRef} {m m' : Machine σ}
    (h : (evalValue owner).perform scope m = (.ok (.object o), m')) (member : Node) :
    (evalValue (.apply .member [owner, member])).perform scope m
      = (popped (memberOf o member)).perform scope m' := by
  rw [evalValue] at h
  rw [evalValue, eval_member, popped_bind, perform_bind, h]
  rfl

/-- Right of a `.` behind the object, the expression means an index: it is one, or it is a name
for which the selectors answer one. -/
inductive MeansIndex (scope : Scope σ) (o : ObjectRef) :
    Node → World σ → Int32 → World σ → Prop
  | literal (index : Int32) (w : World σ) : MeansIndex scope o (.int index) w index w
  | answered {name : String} {w w' : World σ} {index : Int32} (hname : name ≠ "Count")
      (h : (Selector.selectFirst (some o) name (scope.selectors.map (·.2))).run w
        = (some (.int index), w')) : MeansIndex scope o (.ident name) w index w'

/-- Whatever expression comes to the object, it answers for the elements behind it: `Count` is how
many there are, an index from zero on picks one of them, and every other index is out of range. -/
structure AnswersAsList (scope : Scope σ) (s : Stack) (o : ObjectRef) (us : List Value) : Prop where
  count : ∀ owner w w', (evalValue owner).perform scope ⟨s, w⟩ = (.ok (.object o), ⟨s, w'⟩) →
    ∃ count : Int32, count.toInt = min us.length 2147483647 ∧
      (evalValue (.apply .member [owner, .ident "Count"])).perform scope ⟨s, w⟩
        = (.ok (.int count), ⟨s, w'⟩)
  inside : ∀ owner member w w₁ w' index,
    (evalValue owner).perform scope ⟨s, w⟩ = (.ok (.object o), ⟨s, w₁⟩) →
    MeansIndex scope o member w₁ index w' → ∀ (k : Nat) (h : k < us.length), index.toInt = k →
      (evalValue (.apply .member [owner, member])).perform scope ⟨s, w⟩ = (.ok us[k], ⟨s, w'⟩)
  outside : ∀ owner member w w₁ w' index,
    (evalValue owner).perform scope ⟨s, w⟩ = (.ok (.object o), ⟨s, w₁⟩) →
    MeansIndex scope o member w₁ index w' → ¬ (0 ≤ index.toInt ∧ index.toInt < us.length) →
      (evalValue (.apply .member [owner, member])).perform scope ⟨s, w⟩
        = (.error (.indexOutOfRange index us.length), ⟨s, w'⟩)

/-- What the list of the elements has at an index. -/
def elementAt (us : List Value) (index : Int32) : Except EvalError Value :=
  match if 0 ≤ index.toInt then us[index.toInt.toNat]? else none with
  | some u => .ok u
  | none => .error (.indexOutOfRange index us.length)

theorem elementAt_inside {us : List Value} {index : Int32} {k : Nat} (h : k < us.length)
    (hindex : index.toInt = k) : elementAt us index = .ok us[k] := by
  have hnonneg : 0 ≤ index.toInt := by omega
  rw [elementAt, if_pos hnonneg, hindex, Int.toNat_natCast, List.getElem?_eq_getElem h]

theorem elementAt_outside {us : List Value} {index : Int32}
    (h : ¬ (0 ≤ index.toInt ∧ index.toInt < us.length)) :
    elementAt us index = .error (.indexOutOfRange index us.length) := by
  have hnone : (if 0 ≤ index.toInt then us[index.toInt.toNat]? else none) = none := by
    split
    · exact List.getElem?_eq_none (by omega)
    · rfl
  rw [elementAt, hnone]

/-- A list answers for its elements itself, whatever the host is. -/
theorem run_element_ofList (host : Objects σ) (identity : Nat) (element : Kind) (us : List Value)
    (index : Int32) (w : World σ) :
    (host.element (.ofList identity element us) index).run w = (elementAt us index, w) := by
  have hindexed : (Object.ofList identity element us).isIndexed = true := rfl
  have hat : (host.at? (.ofList identity element us) index).run w
      = (if 0 ≤ index.toInt then us[index.toInt.toNat]? else none, w) := by
    unfold Objects.at?
    split
    · rfl
    · rfl
  rw [Objects.run_element, if_pos hindexed, hat, elementAt]
  cases if 0 ≤ index.toInt then us[index.toInt.toNat]? else none with
  | some u => rfl
  | none => rfl

theorem perform_listElement_ofList (hroom : s.HasRoom) (identity : Nat) (element : Kind)
    (us : List Value) (index : Int32) (w : World σ) :
    (popped (listElement (.ofList identity element us) index)).perform scope ⟨s, w⟩
      = (elementAt us index, ⟨s, w⟩) := by
  have hanswer : (do
      onWorldExcept ((← objects).element (.ofList identity element us) index)
        : EvalM σ Value).perform scope ⟨s, w⟩ = (elementAt us index, ⟨s, w⟩) := by
    have hrun := run_element_ofList scope.objects identity element us index w
    show (((scope.objects.element (.ofList identity element us) index).run w).1, (⟨s,
      ((scope.objects.element (.ofList identity element us) index).run w).2⟩ : Machine σ)) = _
    rw [hrun]
  have hfound := perform_popped_found hanswer fun v _ => hroom.overflow?_eq_none v
  rwa [bind_assoc] at hfound

/-- What the selectors answer for a name decides what a member of a list is. -/
theorem selectMember_ofList {identity : Nat} {element : Kind} {us : List Value} {name : String}
    (hname : name ≠ "Count") :
    (selectMember (.ofList identity element us) name : EvalM σ ValueInfo) = (do
      match ← onWorld (Selector.selectFirst (some (.ofList identity element us)) name
        (← selectors)) with
      | some (.int index) => listElement (.ofList identity element us) index
      | some v => pushValue v
      | none => throw (.unknownMember (Object.ofList identity element us).typeName name)) := by
  unfold selectMember
  rw [if_neg fun h => hname h.1]
  rfl

/-- Whatever stands for the index, the element in that place is looked up. -/
theorem perform_memberOf_ofList (hroom : s.HasRoom) {identity : Nat} {element : Kind}
    {us : List Value} {member : Node} {index : Int32}
    (h : MeansIndex scope (.ofList identity element us) member w index w') :
    (popped (memberOf (.ofList identity element us) member)).perform scope ⟨s, w⟩
      = (elementAt us index, ⟨s, w'⟩) := by
  cases h with
  | literal =>
    rw [memberOf]
    exact perform_listElement_ofList hroom identity element us index w
  | @answered name _ _ _ hname h =>
    rw [memberOf, selectMember_ofList hname, ← bind_assoc, popped_bind, perform_bind,
      perform_onSelectors, h]
    exact perform_listElement_ofList hroom identity element us index w'

theorem memberOf_ofList_count (identity : Nat) (element : Kind) (us : List Value) :
    (memberOf (.ofList identity element us) (.ident "Count") : EvalM σ ValueInfo)
      = pushValue (.int (Int32.ofNat (min us.length 2147483647))) :=
  rfl

theorem answersAsList_ofList (hroom : s.HasRoom) (identity : Nat) (element : Kind)
    (us : List Value) : AnswersAsList scope s (.ofList identity element us) us := by
  constructor
  · intro owner w w' howner
    refine ⟨Int32.ofNat (min us.length 2147483647), Int32.toInt_ofNat_of_lt (by omega), ?_⟩
    rw [perform_evalValue_member howner, memberOf_ofList_count, perform_popped_pushValue,
      hroom.overflow?_eq_none]
  · intro owner member w w₁ w' index howner hmember k hk hindex
    rw [perform_evalValue_member howner, perform_memberOf_ofList hroom hmember,
      elementAt_inside hk hindex]
  · intro owner member w w₁ w' index howner hmember hindex
    rw [perform_evalValue_member howner, perform_memberOf_ofList hroom hmember,
      elementAt_outside hindex]

/-- A list literal has a value just if each of its elements has one that can be an element, and
otherwise the error of the first that does not; the elements behind that one are not evaluated.  The
list that is made holds the values of its elements: it answers for their number and for each index,
and for no other. -/
theorem evalValue_list_iff (hroom : s.HasRoom) (scope : Scope σ) (element : Kind)
    (items : List Node) (w : World σ) :
    (∀ made m', (evalValue (.list element items)).perform scope ⟨s, w⟩ = (.ok made, m') ↔
      ∃ us w', Collects scope s element items w us w' ∧
        made = .object (w'.listOf element us) ∧ m' = ⟨s, w'.grown⟩) ∧
    (∀ e m', (evalValue (.list element items)).perform scope ⟨s, w⟩ = (.error e, m') ↔
      ∃ before n after us w₁, items = before ++ n :: after ∧
        Collects scope s element before w us w₁ ∧ Spoils scope s element n w₁ e m') ∧
    ∀ us w', Collects scope s element items w us w' →
      us.length = items.length ∧ AnswersAsList scope s (w'.listOf element us) us := by
  refine ⟨fun made m' => ?_, fun e m' => ?_, fun us w' h =>
    ⟨h.length, answersAsList_ofList hroom _ _ us⟩⟩
  · -- A list is made of the elements, after all of them.
    rw [perform_evalValue_list hroom]
    constructor
    · intro h
      split at h
      · cases h
      · next us m₁ hitems =>
        rcases (evalItems_eq_ok_iff hroom).mp hitems with ⟨w', rfl, hcollects⟩
        cases h
        exact ⟨us, w', hcollects, rfl, rfl⟩
    · rintro ⟨us, w', hcollects, rfl, rfl⟩
      rw [(evalItems_eq_ok_iff hroom).mpr ⟨w', rfl, hcollects⟩]
  · -- Making the list cannot fail, so the error is the one of the elements.
    rw [perform_evalValue_list hroom, ← evalItems_eq_error_iff hroom]
    constructor
    · intro h
      split at h
      · next e' m₁ hitems =>
        cases h
        exact hitems
      · cases h
    · intro h
      rw [h]

end

namespace CountedReads

/-- A host that answers every name with how many answers it has given before. -/
def scope : Scope Nat where
  objects := {}
  selectors := [(⟨0⟩, .readOnly fun _ _ => fun w =>
    (some (.int (Int32.ofNat w.state)), { w with state := w.state + 1 }))]
  initializers := .empty

def stack : Stack := .ofSize ⟨4, 1⟩

/-- Each element is a read of its own, and integers become floats.  Right of the `.`, a literal is
an index, and so is what the host answers to a third read. -/
theorem evalValue_list_iff_next :
    let literal : Node := .list .float [.ident "next", .ident "next"]
    let spoiled : Node := .list .int [.ident "next", .str "a", .ident "next"]
    let us : List Value := [.float (promote 0), .float (promote 1)]
    let made : ObjectRef := (⟨2, 0⟩ : World Nat).listOf .float us
    let start : Machine Nat := ⟨stack, ⟨0, 0⟩⟩
    stack.HasRoom ∧
      Collects scope stack .float [.ident "next", .ident "next"] ⟨0, 0⟩ us ⟨2, 0⟩ ∧
      (evalValue literal).perform scope start = (.ok (.object made), ⟨stack, ⟨2, 1⟩⟩) ∧
      (∃ count : Int32, count.toInt = 2 ∧
        (evalValue (.apply .member [literal, .ident "Count"])).perform scope start
          = (.ok (.int count), ⟨stack, ⟨2, 1⟩⟩)) ∧
      (evalValue (.apply .member [literal, .int 1])).perform scope start
        = (.ok (.float (promote 1)), ⟨stack, ⟨2, 1⟩⟩) ∧
      (evalValue (.apply .member [literal, .ident "next"])).perform scope start
        = (.error (.indexOutOfRange 2 2), ⟨stack, ⟨3, 1⟩⟩) ∧
      (evalValue spoiled).perform scope start
        = (.error (.typeMismatch .int .string), ⟨stack, ⟨1, 0⟩⟩) := by
  intro literal spoiled us made start
  have hroom : stack.HasRoom := Stack.hasRoom_ofSize
  have hnext : ∀ n k : Nat, (evalValue (.ident "next")).perform scope ⟨stack, ⟨n, k⟩⟩
      = (.ok (.int (Int32.ofNat n)), ⟨stack, ⟨n + 1, k⟩⟩) := by
    intro n k
    rw [perform_evalValue scope hroom]
    rfl
  have hcollects : Collects scope stack .float [.ident "next", .ident "next"] ⟨0, 0⟩ us ⟨2, 0⟩ :=
    .cons (hnext 0 0) (.promoted _) (.cons (hnext 1 0) (.promoted _) .nil)
  have hlist := evalValue_list_iff hroom scope .float [.ident "next", .ident "next"] ⟨0, 0⟩
  have hmade : (evalValue literal).perform scope start = (.ok (.object made), ⟨stack, ⟨2, 1⟩⟩) :=
    (hlist.1 _ _).mpr ⟨us, _, hcollects, rfl, rfl⟩
  have hanswers := (hlist.2.2 _ _ hcollects).2
  have hspoiled : (evalValue spoiled).perform scope start
      = (.error (.typeMismatch .int .string), ⟨stack, ⟨1, 0⟩⟩) := by
    refine ((evalValue_list_iff hroom scope .int _ _).2.1 _ _).mpr
      ⟨[.ident "next"], .str "a", [.ident "next"], [.int 0], ⟨1, 0⟩, rfl,
        .cons (hnext 0 0) (.int _) .nil, .kind (v := .str "a") ?_ ?_⟩
    · rw [perform_evalValue scope hroom]
      rfl
    · rintro _ ⟨⟩
  refine ⟨hroom, hcollects, hmade, hanswers.count literal _ _ hmade, ?_, ?_, hspoiled⟩
  · exact hanswers.inside literal (.int 1) _ _ _ 1 hmade (.literal 1 _) 1 (by decide) rfl
  · exact hanswers.outside literal (.ident "next") _ _ _ 2 hmade (.answered (by decide) rfl)
      (by decide)

end CountedReads

end Edict
