import Edict.Proofs.Asking

namespace Edict

/-! # Folding keeps the meaning of an expression

An operation on literals asks nothing but the objects among them.  If these answer the same whenever
they are asked, its outcome is a matter of the stack alone and folding may ask for it ahead of time.
What takes the place of an expression must then also be taken the same way by the constructs that
look at how their parts are written: the left side of an assignment, the fields of a new object and
the right side of a `.`.  `Replaces` collects what these need, and an induction along `fold`
establishes it.

Objects that do not always answer the same are the reason that folding may change a value: the string
form of an object that is written to is another one afterwards, but folding has asked for it before.
A tree that is read from a text has no object in it, and nothing is asked of the objects then.

Main statements:

* `replaces_of_fold`: the folded expression replaces the one it comes from;
* `eval_fold`: both have the same outcome, leave the same machine and make the same calls.
-/

open EvalM

/-! ## What may take the place of an expression -/

namespace EvalM

variable {k : Standing} {σ α β : Type} {scope : Scope σ} {s start : Stack}

/-- Begun on the stack `start`, the two actions cannot be told apart while the objects answer as they
always do. -/
def Agree (k : Standing) (scope : Scope σ) (start : Stack) (act act' : EvalM σ α) : Prop :=
  ∀ w, scope.Upholds k w → act.perform scope ⟨start, w⟩ = act'.perform scope ⟨start, w⟩

theorem Agree.refl (act : EvalM σ α) : Agree k scope start act act := fun _ _ => rfl

/-- Two actions agree step by step. -/
theorem Agree.bind {act act' : EvalM σ α} {next next' : α → EvalM σ β}
    {mid : α → Stack → Prop} (hends : Ends scope s start act mid)
    (hact : Agree k scope start act act')
    (hnext : ∀ a s', mid a s' → Agree k scope s' (next a) (next' a)) :
    Agree k scope start (act >>= next) (act' >>= next') := by
  intro w hupholds
  have houtcome := hends.outcome w
  have hreaches := hends.reaches w
  rw [perform_bind, perform_bind, ← hact w hupholds]
  -- `hends` tells which stack and which world the second actions begin on.
  rcases hp : act.perform scope ⟨start, w⟩ with ⟨e | a, s', w'⟩
  · rfl
  · rw [hp] at houtcome hreaches
    exact hnext a s' houtcome w' (hupholds.of_reaches hreaches)

/-- What follows an action that ends where it began begins there too. -/
theorem Agree.andThen {act act' : EvalM σ α} {next next' : α → EvalM σ β}
    (hends : Ends scope s start act (Back s)) (hact : Agree k scope start act act')
    (hnext : ∀ a, Agree k scope s (next a) (next' a)) :
    Agree k scope start (act >>= next) (act' >>= next') := by
  refine hact.bind hends fun a s' hs => ?_
  obtain rfl : s' = s := hs
  exact hnext a

/-- Results that agree are popped alike. -/
theorem agree_popped {act act' : EvalM σ ValueInfo} (hends : Ends scope s s act (Leaves s))
    (h : Agree k scope s act act') : Agree k scope s (popped act) (popped act') :=
  h.bind hends fun _ _ _ => .refl _

end EvalM

/-- Begun on the stack `s`, the expressions are evaluated alike by every host whose objects answer as
they always do. -/
def SameEval (k : Standing) (s : Stack) (n n' : Node) : Prop :=
  ∀ {σ : Type} (scope : Scope σ), Agree k scope s (eval n) (eval n')

/-- On the stack `s`, the second expression does what the first does wherever an expression may
stand. -/
structure Replaces (k : Standing) (s : Stack) (n n' : Node) : Prop where
  /-- As an operand, an element or on its own. -/
  value : SameEval k s n n'
  /-- On the left of an assignment. -/
  target : ∀ {right right' : Node}, SameEval k s right right' →
    SameEval k s (.apply .assign [n, right]) (.apply .assign [n', right'])
  /-- As a field of a new object. -/
  field : ∀ {σ : Type} {scope : Scope σ} {initializer : Initializer σ} {ns ns' : List Node},
    (∃ typeName, scope.initializers.find? typeName = some initializer) →
    (∀ object, Agree k scope s (evalFields initializer object ns)
      (evalFields initializer object ns')) →
    ∀ object, Agree k scope s (evalFields initializer object (n :: ns))
      (evalFields initializer object (n' :: ns'))
  /-- As a name. -/
  ident : ∀ name, n = .ident name ↔ n' = .ident name
  /-- As the number of an element. -/
  index : n.isOperation = false → n'.isOperation = false ∧ ∀ i, n = .int i ↔ n' = .int i

/-! ### Assignments and fields -/

variable {k : Standing} {s : Stack} {n n' : Node}

/-- An assignment with an equal right side, and an equal owner, is equal. -/
theorem SameEval.assign_ident {right right' : Node} (h : SameEval k s right right')
    (name : String) :
    SameEval k s (.apply .assign [.ident name, right]) (.apply .assign [.ident name, right']) := by
  intro σ scope
  rw [eval_assign_ident, eval_assign_ident]
  exact (agree_popped (ends_eval right s) (h scope)).andThen (ends_popped (ends_eval right s))
    fun _ => .refl _

theorem SameEval.assign_member {owner owner' right right' : Node}
    (howner : SameEval k s owner owner') (hright : SameEval k s right right') (name : String) :
    SameEval k s (.apply .assign [.apply .member [owner, .ident name], right])
      (.apply .assign [.apply .member [owner', .ident name], right']) := by
  intro σ scope
  rw [eval_assign_member, eval_assign_member]
  refine (agree_popped (ends_eval owner s) (howner scope)).andThen
    (ends_popped (ends_eval owner s)) fun v => ?_
  refine (Agree.refl (memberOwner v)).andThen (ends_memberOwner v) fun object => ?_
  exact (agree_popped (ends_eval right s) (hright scope)).andThen
    (ends_popped (ends_eval right s)) fun _ => .refl _

/-- Assignments to what cannot be assigned to fail alike, whatever their right sides are. -/
theorem sameEval_assign_of_not_isTarget (h : n.isTarget = false) (h' : n'.isTarget = false)
    (right right' : Node) :
    SameEval k s (.apply .assign [n, right]) (.apply .assign [n', right']) := by
  intro σ scope
  rw [eval_assign_of_not_isTarget h, eval_assign_of_not_isTarget h']
  exact .refl _

/-- A field with an equal right side is set alike. -/
theorem agree_field {σ : Type} {scope : Scope σ} {initializer : Initializer σ}
    {right right' : Node} {ns ns' : List Node} (name : String) (hright : SameEval k s right right')
    (hfind : ∃ typeName, scope.initializers.find? typeName = some initializer)
    (hrest : ∀ object, Agree k scope s (evalFields initializer object ns)
      (evalFields initializer object ns')) (object : ObjectRef) :
    Agree k scope s (evalFields initializer object (.apply .assign [.ident name, right] :: ns))
      (evalFields initializer object (.apply .assign [.ident name, right'] :: ns')) := by
  rcases hfind with ⟨typeName, hfind⟩
  rw [evalFields, evalFields]
  refine (agree_popped (ends_eval right s) (hright scope)).andThen
    (ends_popped (ends_eval right s)) fun v => ?_
  exact (Agree.refl _).andThen (Ends.setField hfind object name v) hrest

/-- An expression that is no name, no member and no field is asked for its value alone, and for
being a number right of a `.`. -/
theorem Replaces.of_value (hvalue : SameEval k s n n')
    (htarget : n.isTarget = false) (htarget' : n'.isTarget = false)
    (hfield : n.isField = false) (hfield' : n'.isField = false)
    (hindex : n.isOperation = false → n'.isOperation = false ∧ ∀ i, n = .int i ↔ n' = .int i) :
    Replaces k s n n' where
  value := hvalue
  target _ := sameEval_assign_of_not_isTarget htarget htarget' _ _
  field _ _ object := by
    rw [evalFields_of_not_isField hfield, evalFields_of_not_isField hfield']
    exact .refl _
  ident name := by
    constructor
    · rintro rfl
      cases htarget
    · rintro rfl
      cases htarget'
  index := hindex

/-- What replaces a tree may be replaced in turn. -/
theorem Replaces.trans {n'' : Node} (h : Replaces k s n n') (h' : Replaces k s n' n'') :
    Replaces k s n n'' where
  value scope w hw := (h.value scope w hw).trans (h'.value scope w hw)
  target hright := fun scope w hw => (h.target hright scope w hw).trans
    (h'.target (fun _ => .refl _) scope w hw)
  field hfind hrest object w hw := (h.field hfind hrest object w hw).trans
    (h'.field hfind (fun _ => .refl _) object w hw)
  ident name := (h.ident name).trans (h'.ident name)
  index hn := by
    rcases h.index hn with ⟨hn', hint⟩
    rcases h'.index hn' with ⟨hn'', hint'⟩
    exact ⟨hn'', fun i => (hint i).trans (hint' i)⟩

/-- Anything but an operation may stay as it is. -/
theorem Replaces.refl (h : n.isOperation = false) : Replaces k s n n := by
  have hindex : n.isOperation = false → n.isOperation = false ∧ ∀ i, n = .int i ↔ n = .int i :=
    fun h => ⟨h, fun _ => Iff.rfl⟩
  cases n with
  | ident name =>
    exact
      { value := fun _ => .refl _
        target := fun hright => hright.assign_ident name
        field := fun _ _ object => by
          rw [evalFields_of_not_isField rfl, evalFields_of_not_isField rfl]
          exact .refl _
        ident := fun _ => Iff.rfl
        index := hindex }
  | apply op operands => cases h
  | _ => exact .of_value (fun _ => .refl _) rfl rfl rfl rfl hindex

/-- Nothing but a name or an index is accepted right of a `.`. -/
theorem memberOf_of_ne {σ : Type} (hident : ∀ name, n ≠ .ident name)
    (hint : ∀ i, n ≠ .int i) (owner : ObjectRef) :
    (memberOf owner n : EvalM σ ValueInfo) = throw .invalidMemberOperand := by
  unfold memberOf
  split
  · exact (hident _ rfl).elim
  · exact (hint _ rfl).elim
  · rfl

/-- Right of a `.`, an expression may be replaced by one that is no number if it is an operation. -/
theorem Replaces.memberOf_eq {σ : Type} (h : Replaces k s n n')
    (hnumber : n.isOperation = true → ∀ i, n' ≠ .int i) (owner : ObjectRef) :
    (memberOf owner n : EvalM σ ValueInfo) = memberOf owner n' := by
  have hint : ∀ i, n = .int i ↔ n' = .int i := by
    intro i
    cases hn : n.isOperation with
    | false => exact (h.index hn).2 i
    | true =>
      constructor
      · rintro rfl
        cases hn
      · intro hn'
        exact absurd hn' (hnumber hn i)
  by_cases hident : ∃ name, n = .ident name
  · rcases hident with ⟨name, rfl⟩
    rw [(h.ident name).mp rfl]
  · by_cases hindex : ∃ i, n = .int i
    · rcases hindex with ⟨i, rfl⟩
      rw [(hint i).mp rfl]
    · rw [memberOf_of_ne (fun name hn => hident ⟨name, hn⟩) (fun i hn => hindex ⟨i, hn⟩),
        memberOf_of_ne (fun name hn => hident ⟨name, (h.ident name).mpr hn⟩)
          (fun i hn => hindex ⟨i, (hint i).mpr hn⟩)]

/-! ### Operations -/

/-- The parts of an operation may be replaced one by one, as long as no operation right of a `.` is
replaced by a number. -/
theorem sameEval_apply {op : Op} {operands operands' : List Node}
    (h : List.Forall₂ (Replaces k s) operands operands')
    (hnumber : ∀ owner member owner' member', op = .member → operands = [owner, member] →
      operands' = [owner', member'] → member.isOperation = true → ∀ i, member' ≠ .int i) :
    SameEval k s (.apply op operands) (.apply op operands') := by
  intro σ scope
  by_cases harity : operands.length = op.arity
  · rcases Op.operands_cases harity with ⟨a, rfl⟩ | ⟨a, b, rfl⟩ | ⟨rfl, a, b, c, rfl⟩
    · rcases h with _ | ⟨ha, _ | _⟩
      have hunary : op.arity = 1 := harity.symm
      rw [eval_unary hunary, eval_unary hunary]
      exact (agree_popped (ends_eval a s) (ha.value scope)).andThen (ends_popped (ends_eval a s))
        fun _ => .refl _
    · rcases h with _ | ⟨ha, _ | ⟨hb, _ | _⟩⟩
      have hbinary : op.arity = 2 := harity.symm
      by_cases hmember : op = .member
      · subst hmember
        rw [eval_member, eval_member]
        refine (agree_popped (ends_eval a s) (ha.value scope)).andThen
          (ends_popped (ends_eval a s)) fun v => ?_
        refine (Agree.refl _).andThen (ends_memberOwner v) fun owner => ?_
        -- What stands right of a `.` is not evaluated but looked at.
        rw [hb.memberOf_eq (hnumber a b _ _ rfl rfl rfl)]
        exact .refl _
      · by_cases hassign : op = .assign
        · subst hassign
          -- What is assigned to is looked at, too.
          exact ha.target hb.value scope
        · rw [eval_binary hbinary hmember hassign, eval_binary hbinary hmember hassign]
          refine (agree_popped (ends_eval a s) (ha.value scope)).andThen
            (ends_popped (ends_eval a s)) fun v => ?_
          cases decided? op v with
          | some b => exact .refl _
          | none =>
            exact (agree_popped (ends_eval b s) (hb.value scope)).andThen
              (ends_popped (ends_eval b s)) fun _ => .refl _
    · rcases h with _ | ⟨ha, _ | ⟨hb, _ | ⟨hc, _ | _⟩⟩⟩
      rw [eval_ternary, eval_ternary]
      refine (ha.value scope).bind (ends_eval a s) fun info s' hleft => ?_
      by_cases hbool : info.kind = .bool
      · simp only [hbool, if_true]
        refine (Agree.refl _).andThen (ends_popScalar_of_kind_bool hleft hbool) fun yes => ?_
        cases yes with
        | true => exact hb.value scope
        | false => exact hc.value scope
      · simp only [hbool, if_false]
        exact .refl _
  · have hlength := h.length_eq
    rw [eval_apply_of_length_ne harity, eval_apply_of_length_ne (by rwa [← hlength]), hlength]
    exact .refl _

/-- Operands may be replaced one by one, unless that puts a number right of a `.` where an operation
was. -/
theorem Replaces.apply {op : Op} {operands operands' : List Node}
    (h : List.Forall₂ (Replaces k s) operands operands')
    (hnumber : ∀ owner member owner' member', op = .member → operands = [owner, member] →
      operands' = [owner', member'] → member.isOperation = true → ∀ i, member' ≠ .int i) :
    Replaces k s (.apply op operands) (.apply op operands') where
  value := sameEval_apply h hnumber
  target {right right'} hright := by
    -- Names are replaced by themselves alone, so both operations are a member or neither is.
    by_cases htarget : (Node.apply op operands).isTarget = true
    · rcases Node.isTarget_apply_iff.mp htarget with ⟨rfl, owner, name, rfl⟩
      rcases h with _ | ⟨howner, _ | ⟨hname, _ | _⟩⟩
      rw [(hname.ident name).mp rfl]
      exact SameEval.assign_member howner.value hright name
    · have htarget' : ¬(Node.apply op operands').isTarget = true := by
        intro htarget'
        rcases Node.isTarget_apply_iff.mp htarget' with ⟨rfl, owner, name, rfl⟩
        rcases h with _ | ⟨howner, _ | ⟨hname, _ | _⟩⟩
        rw [(hname.ident name).mpr rfl] at htarget
        exact htarget rfl
      exact sameEval_assign_of_not_isTarget (by simpa using htarget) (by simpa using htarget')
        right right'
  field {σ scope initializer ns ns'} hfind hrest object := by
    -- In the same way, both are an assignment to a name or neither is.
    by_cases hfield : (Node.apply op operands).isField = true
    · rcases Node.isField_iff.mp hfield with ⟨name, right, hn⟩
      cases hn
      rcases h with _ | ⟨hname, _ | ⟨hright, _ | _⟩⟩
      rw [(hname.ident name).mp rfl]
      exact agree_field name hright.value hfind hrest object
    · have hfield' : ¬(Node.apply op operands').isField = true := by
        intro hfield'
        rcases Node.isField_iff.mp hfield' with ⟨name, right, hn⟩
        cases hn
        rcases h with _ | ⟨hname, _ | ⟨hright, _ | _⟩⟩
        rw [(hname.ident name).mpr rfl] at hfield
        exact hfield rfl
      rw [evalFields_of_not_isField (by simpa using hfield),
        evalFields_of_not_isField (by simpa using hfield')]
      exact .refl _
  ident name := by
    constructor
    · intro hident
      cases hident
    · intro hident
      cases hident
  index hoperation := by cases hoperation

/-! ### Lists and new objects -/

/-- The elements of a list may be replaced one by one, and so may the fields of a new object. -/
theorem agree_evalItems {ns ns' : List Node} (h : List.Forall₂ (Replaces k s) ns ns') {σ : Type}
    (scope : Scope σ) (element : Kind) :
    Agree k scope s (evalItems element ns) (evalItems element ns') := by
  induction h with
  | nil => exact .refl _
  | @cons n n' ns ns' hn _ ih =>
    rw [evalItems, evalItems]
    refine (hn.value scope).bind (ends_eval n s) fun info s' hleft => ?_
    refine (Agree.refl _).andThen (ends_popElement element hleft) fun v => ?_
    exact Agree.andThen (ends_evalItems element ns) ih fun vs => .refl _

theorem agree_evalFields {ns ns' : List Node} (h : List.Forall₂ (Replaces k s) ns ns') {σ : Type}
    {scope : Scope σ} {initializer : Initializer σ}
    (hfind : ∃ typeName, scope.initializers.find? typeName = some initializer) :
    ∀ object, Agree k scope s (evalFields initializer object ns)
      (evalFields initializer object ns') := by
  induction h with
  | nil => exact fun _ => .refl _
  | cons hn _ ih => exact hn.field hfind ih

theorem Replaces.list {items items' : List Node} (h : List.Forall₂ (Replaces k s) items items')
    (element : Kind) : Replaces k s (.list element items) (.list element items') := by
  refine .of_value ?_ rfl rfl rfl rfl fun _ => ⟨rfl, fun i => ?_⟩
  · intro σ scope
    rw [eval, eval]
    exact (agree_evalItems h scope element).andThen (ends_evalItems element items)
      fun vs => .refl _
  · constructor
    · intro hint
      cases hint
    · intro hint
      cases hint

theorem Replaces.construct {fields fields' : List Node}
    (h : List.Forall₂ (Replaces k s) fields fields') (typeName : String) :
    Replaces k s (.construct typeName fields) (.construct typeName fields') := by
  refine .of_value ?_ rfl rfl rfl rfl fun _ => ⟨rfl, fun i => ?_⟩
  · intro σ scope
    rw [eval, eval]
    by_cases hname : typeName = ""
    · simp only [hname, if_true]
      exact .refl _
    · simp only [hname, if_false]
      refine (Agree.refl _).bind Ends.read fun scope' s' hs => ?_
      rcases hs with ⟨rfl, rfl⟩
      cases hfind : scope'.initializers.find? typeName with
      | none => exact .refl _
      | some initializer =>
        -- The object is made before its fields are evaluated.
        refine (Agree.refl _).andThen (Ends.onWorld fun w => (Scope.Moves.create hfind).reaches)
          fun object => ?_
        exact (agree_evalFields h ⟨typeName, hfind⟩ object).andThen
          (ends_evalFields ⟨typeName, hfind⟩ fields object) fun _ => .refl _
  · constructor
    · intro hint
      cases hint
    · intro hint
      cases hint

/-! ## Folding -/

/-- A value that evaluation has popped is what the expression had left on top of the stack. -/
theorem perform_eval_of_evalValue {σ : Type} {scope : Scope σ} {s s' : Stack} {w w' : World σ}
    {v : Value} (h : (evalValue n).perform scope ⟨s, w⟩ = (.ok v, ⟨s', w'⟩)) :
    s.overflow? v = none ∧
      (eval n).perform scope ⟨s, w⟩ = (.ok (s.place v), ⟨s.holding v, w'⟩) := by
  have hends : Ends scope s s (eval n) (Leaves s) := ends_eval n s
  have houtcome := hends.outcome w
  rw [evalValue, popped, perform_bind] at h
  rcases heval : (eval n).perform scope ⟨s, w⟩ with ⟨e | info, s'', w''⟩
  · rw [heval] at h
    cases h
  · rw [heval] at h houtcome
    rcases houtcome with ⟨v', rfl, rfl, hroom⟩
    dsimp only at h
    rw [perform_popValue scope hroom] at h
    cases h
    exact ⟨hroom, rfl⟩

/-- A literal replaces an operation on literals that every host evaluates to its value. -/
theorem Replaces.of_literals {op : Op} {operands : List Node} {v : Value} {literal : Node}
    (hliterals : operands.all Node.isLiteral = true) (hliteral : literal.literal? = some v)
    (hroom : s.overflow? v = none)
    (heval : ∀ {σ : Type} (scope : Scope σ) (w : World σ), scope.Upholds k w →
      (eval (.apply op operands)).perform scope ⟨s, w⟩ = (.ok (s.place v), ⟨s.holding v, w⟩)) :
    Replaces k s (.apply op operands) literal := by
  have hisLiteral : literal.isLiteral = true := literal.isLiteral_iff.mpr ⟨v, hliteral⟩
  -- A target or a field has a name among its operands, and a name is no literal.
  have htarget : (Node.apply op operands).isTarget = false := by
    by_contra h
    rcases Node.isTarget_apply_iff.mp (by simpa using h) with ⟨-, owner, name, rfl⟩
    simp [Node.isLiteral] at hliterals
  have hfield : (Node.apply op operands).isField = false := by
    by_contra h
    rcases Node.isField_iff.mp (by simpa using h) with ⟨name, right, hn⟩
    cases hn
    simp [Node.isLiteral] at hliterals
  refine .of_value ?_ htarget (Node.isTarget_eq_false_of_isLiteral hisLiteral) hfield
    (Node.isField_eq_false_of_isLiteral hisLiteral) (by intro hoperation; cases hoperation)
  intro σ scope w hupholds
  rw [heval scope w hupholds, eval_of_literal? hliteral, perform_pushValue, hroom]

/-- Folding an operation on literals leaves everything as it was, and what comes of it is the
operation itself or replaces it. -/
theorem replaces_of_foldLiteral {σ : Type} {scope : Scope σ} {m m' : Machine σ} {op : Op}
    {operands : List Node} (hliterals : operands.all Node.isLiteral = true)
    (hk : ∀ n ∈ operands, n.ObjectsIn k.holds) (hupholds : scope.Upholds k m.world)
    (hfold : (foldLiteral (.apply op operands)).perform scope m = (.ok n', m')) :
    m' = m ∧ (n' = .apply op operands ∨ Replaces k m.stack (.apply op operands) n') := by
  rcases perform_bind_ok scope hfold with ⟨v, m₁, hvalue, hrest⟩
  cases hrest
  rcases (asking_evalValue op hliterals hk).run_eq hupholds (perform_of_restoring_ok hvalue) with
    ⟨rfl, -, hanywhere⟩
  refine ⟨rfl, ?_⟩
  cases hliteral : Node.ofValue? v with
  | none => exact .inl rfl
  | some literal =>
    have hroom := (perform_eval_of_evalValue (hanywhere scope _ hupholds)).1
    exact .inr (.of_literals hliterals (Node.literal?_of_ofValue? hliteral) hroom
      fun scope' w hw => (perform_eval_of_evalValue (hanywhere scope' w hw)).2)

/-- Whether what stands right of a `.`, if this is one, is no operation. -/
def Node.memberPlain : Op → List Node → Bool
  | .member, [_, member] => !member.isOperation
  | _, _ => true

mutual

/-- Whether no `.` has an operation on its right. -/
def Node.membersPlain : Node → Bool
  | .apply op operands => Node.memberPlain op operands && Node.allMembersPlain operands
  | .list _ items => Node.allMembersPlain items
  | .construct _ fields => Node.allMembersPlain fields
  | _ => true

/-- Whether no `.` in any of the expressions has an operation on its right. -/
def Node.allMembersPlain : List Node → Bool
  | [] => true
  | n :: ns => n.membersPlain && Node.allMembersPlain ns

end

/-- Right of a `.`, an operation means nothing; folding makes this one a number, which means an
element. -/
def Node.ComputesIndex {σ : Type} (scope : Scope σ) (m : Machine σ) (member : Node) : Prop :=
  member.isOperation = true ∧ ∃ i m', (fold member).perform scope m = (.ok (.int i), m')

/-- No `.` in the tree has an operation on its right that folding makes a number. -/
def Node.IndexesWritten {σ : Type} (scope : Scope σ) (m : Machine σ) (n : Node) : Prop :=
  ∀ owner member, .apply .member [owner, member] ∈ n.subtrees → ¬member.ComputesIndex scope m

section

variable {σ : Type} {scope : Scope σ}

/-- The condition on a tree is a condition on its parts. -/
theorem Node.IndexesWritten.of_mem {m : Machine σ} {n part : Node} {parts : List Node}
    (h : n.IndexesWritten scope m) (hparts : n.subtrees = n :: Node.allSubtrees parts)
    (hpart : part ∈ parts) : part.IndexesWritten scope m :=
  fun owner member hmem =>
    h owner member ((Node.mem_subtrees_iff hparts).mpr (.inr ⟨part, hpart, hmem⟩))

/-- What comes of folding an expression replaces it, and folding leaves everything as it was. -/
theorem replaces_of_fold_of_indexesWritten (n : Node) :
    ∀ (m m' : Machine σ) (n' : Node), n.IndexesWritten scope m → n.ObjectsIn k.holds →
      scope.Upholds k m.world → (fold n).perform scope m = (.ok n', m') →
        m' = m ∧ Replaces k m.stack n n' := by
  -- The parts are folded one after the other, each on the machine that the whole began on.
  induction n using fold.induct
    (motive_2 := fun ns => ∀ (m m' : Machine σ) (ns' : List Node),
      (∀ n ∈ ns, n.IndexesWritten scope m) → (∀ n ∈ ns, n.ObjectsIn k.holds) →
      scope.Upholds k m.world → (foldAll ns).perform scope m = (.ok ns', m') →
        m' = m ∧ List.Forall₂ (fun n n' => Replaces k m.stack n n' ∧
          (fold n).perform scope m = (.ok n', m)) ns ns')
  with
  | case1 op operands ih =>
    intro m m' n' hwritten hk hupholds hfold
    rw [fold] at hfold
    rcases perform_bind_ok scope hfold with ⟨operands', m'', hoperands, hrest⟩
    have hparts : ∀ part ∈ operands, part.IndexesWritten scope m :=
      fun _ => hwritten.of_mem (Node.subtrees_apply op operands)
    have hkparts : ∀ part ∈ operands, part.ObjectsIn k.holds :=
      fun _ => hk.of_mem (Node.subtrees_apply op operands)
    rcases ih _ _ _ hparts hkparts hupholds hoperands with ⟨rfl, hall⟩
    have hreplaces : Replaces k m''.stack (.apply op operands) (.apply op operands') := by
      refine .apply (hall.imp fun _ _ h => h.1) ?_
      rintro owner member owner' member' rfl rfl rfl hoperation i rfl
      rcases hall with _ | ⟨-, _ | ⟨⟨-, hmember⟩, _⟩⟩
      exact hwritten owner member (Node.mem_subtrees_self _) ⟨hoperation, i, _, hmember⟩
    by_cases hliterals : operands'.all Node.isLiteral = true
    · -- The operation with its parts folded is replaced once more, by its value.
      have hkparts' : ∀ part ∈ operands', part.ObjectsIn k.holds :=
        ((asking_foldAll operands hkparts).run_eq hupholds hoperands).2.1
      simp only [hliterals, if_true] at hrest
      rcases replaces_of_foldLiteral hliterals hkparts' hupholds hrest with ⟨rfl, rfl | hliteral⟩
      · exact ⟨rfl, hreplaces⟩
      · exact ⟨rfl, hreplaces.trans hliteral⟩
    · simp only [hliterals] at hrest
      cases hrest
      exact ⟨rfl, hreplaces⟩
  | case2 element items ih =>
    intro m m' n' hwritten hk hupholds hfold
    rw [fold] at hfold
    rcases perform_bind_ok scope hfold with ⟨items', m'', hitems, hrest⟩
    have hparts : ∀ part ∈ items, part.IndexesWritten scope m :=
      fun _ => hwritten.of_mem (Node.subtrees_list element items)
    have hkparts : ∀ part ∈ items, part.ObjectsIn k.holds :=
      fun _ => hk.of_mem (Node.subtrees_list element items)
    rcases ih _ _ _ hparts hkparts hupholds hitems with ⟨rfl, hall⟩
    cases hrest
    exact ⟨rfl, .list (hall.imp fun _ _ h => h.1) element⟩
  | case3 typeName fields ih =>
    intro m m' n' hwritten hk hupholds hfold
    rw [fold] at hfold
    rcases perform_bind_ok scope hfold with ⟨fields', m'', hfields, hrest⟩
    have hparts : ∀ part ∈ fields, part.IndexesWritten scope m :=
      fun _ => hwritten.of_mem (Node.subtrees_construct typeName fields)
    have hkparts : ∀ part ∈ fields, part.ObjectsIn k.holds :=
      fun _ => hk.of_mem (Node.subtrees_construct typeName fields)
    rcases ih _ _ _ hparts hkparts hupholds hfields with ⟨rfl, hall⟩
    cases hrest
    exact ⟨rfl, .construct (hall.imp fun _ _ h => h.1) typeName⟩
  | case4 n happly hlist hconstruct =>
    intro m m' n' _ _ _ hfold
    rw [fold_leaf happly hlist hconstruct] at hfold
    cases hfold
    refine ⟨rfl, .refl ?_⟩
    cases n with
    | apply op operands => exact (happly op operands rfl).elim
    | _ => rfl
  | case5 m m' ns' _ _ _ hfold =>
    rw [foldAll] at hfold
    cases hfold
    exact ⟨rfl, .nil⟩
  | case6 n ns hn hns m m' ns' hwritten hk hupholds hfold =>
    rcases List.forall_mem_cons.mp hwritten with ⟨hwritten, hwrittens⟩
    rcases List.forall_mem_cons.mp hk with ⟨hk, hks⟩
    rw [foldAll] at hfold
    rcases perform_bind_ok scope hfold with ⟨n', m₁, hfirst, hbehind⟩
    rcases hn _ _ _ hwritten hk hupholds hfirst with ⟨rfl, hreplaces⟩
    rcases perform_bind_ok scope hbehind with ⟨ns'', m₂, hrest, hlist⟩
    rcases hns _ _ _ hwrittens hks hupholds hrest with ⟨rfl, hall⟩
    cases hlist
    exact ⟨rfl, .cons ⟨hreplaces, hfirst⟩ hall⟩

/-- An operation right of a `.` is not there at all if every `.` is plain. -/
theorem Node.isOperation_eq_false_of_membersPlain (n : Node) {owner member : Node}
    (h : n.membersPlain = true) (hmem : .apply .member [owner, member] ∈ n.subtrees) :
    member.isOperation = false := by
  -- The condition is checked at every node, and so at the one in question.
  induction n using fold.induct
    (motive_2 := fun ns => Node.allMembersPlain ns = true →
      .apply .member [owner, member] ∈ Node.allSubtrees ns → member.isOperation = false)
  with
  | case1 op operands ih =>
    rw [Node.membersPlain, Bool.and_eq_true] at h
    rw [Node.subtrees_apply] at hmem
    rcases List.mem_cons.mp hmem with heq | hmem
    · cases heq
      simpa [Node.memberPlain] using h.1
    · exact ih h.2 hmem
  | case2 element items ih =>
    rw [Node.membersPlain] at h
    rw [Node.subtrees_list] at hmem
    exact ih h (List.mem_of_ne_of_mem (by simp) hmem)
  | case3 typeName fields ih =>
    rw [Node.membersPlain] at h
    rw [Node.subtrees_construct] at hmem
    exact ih h (List.mem_of_ne_of_mem (by simp) hmem)
  | case4 n happly hlist hconstruct =>
    cases n with
    | apply op operands => exact (happly op operands rfl).elim
    | list element items => exact (hlist element items rfl).elim
    | construct typeName fields => exact (hconstruct typeName fields rfl).elim
    | _ => simp [Node.subtrees] at hmem
  | case5 => simp [Node.allSubtrees] at *
  | case6 n ns hn hns h hmem =>
    rw [Node.allMembersPlain, Bool.and_eq_true] at h
    rw [Node.allSubtrees, List.mem_append] at hmem
    rcases hmem with hmem | hmem
    · exact hn h.1 hmem
    · exact hns h.2 hmem

/-- The condition that no `.` has an operation on its right is the simpler one. -/
theorem replaces_of_fold (n : Node) (m m' : Machine σ) (n' : Node) (hplain : n.membersPlain = true)
    (hk : n.ObjectsIn k.holds) (hupholds : scope.Upholds k m.world)
    (hfold : (fold n).perform scope m = (.ok n', m')) : m' = m ∧ Replaces k m.stack n n' := by
  refine replaces_of_fold_of_indexesWritten n m m' n' ?_ hk hupholds hfold
  rintro owner member hmem ⟨hoperation, -⟩
  rw [n.isOperation_eq_false_of_membersPlain hplain hmem] at hoperation
  cases hoperation

end

/-- The folded expression has the outcome of the expression that it comes from, be it a value or an
error, leaves the same stack and world behind and makes the same calls to the host in the same
order; and folding itself leaves everything as it was.  This takes no room beyond what there is: the
machine is any, and so is the host.

The objects that stand in the tree as literals, and those among their elements, must give the same
answers, as to their string forms and their elements, from the moment of folding on, and giving them
must not change anything.  Nothing is asked of a tree without such objects. -/
theorem eval_fold {σ : Type} {scope : Scope σ} {m m' : Machine σ} {n n' : Node} {k : Standing}
    (hplain : n.membersPlain = true) (hk : n.ObjectsIn k.holds) (hupholds : scope.Upholds k m.world)
    (hfold : (fold n).perform scope m = (.ok n', m')) :
    m' = m ∧ (eval n').perform scope m = (eval n).perform scope m ∧
      n'.hostCalls scope m = n.hostCalls scope m := by
  rcases replaces_of_fold n m m' n' hplain hk hupholds hfold with ⟨hm, hreplaces⟩
  refine ⟨hm, (hreplaces.value scope m.world hupholds).symm, ?_⟩
  -- The calls are part of the state that the recorded host ends in.
  have hrecorded := hreplaces.value scope.recorded m.recorded.world (.recorded hupholds)
  exact congrArg (fun outcome => outcome.2.world.state.2) hrecorded.symm

/-! ## An object that is written to -/

namespace Lamp

/-- A lamp, which is on or off. -/
def lamp : ObjectRef := ⟨0, .host "Lamp", "Lamp", .none, true⟩

/-- A host whose state is whether the lamp is on, which can be written to. -/
def scope (describe : ObjectRef → StateM (World Bool) String) : Scope Bool where
  objects :=
    { describe
      assign := fun _ _ v => fun w => (true, { w with state := v.asBool?.getD w.state }) }
  selectors := []
  initializers := .empty

/-- An empty stack with room for one value, and the lamp off. -/
def machine : Machine Bool := ⟨.ofSize ⟨4, 1⟩, ⟨false, 1⟩⟩

/-- `(lamp.on = true) ? text : ""`, with the lamp as a literal. -/
def switchedOn (text : Node) : Node :=
  .apply .ternary
    [.apply .assign [.apply .member [.object lamp, .ident "on"], .bool true], text, .str ""]

/-- `"" + lamp` -/
def spelled : Node := .apply .add [.str "", .object lamp]

/-- The name of the lamp, which is no matter of its state. -/
def name : Standing where
  holds o := o = lamp
  text _ := "Lamp"
  at? _ _ := none
  holds_at? := by
    rintro o index v - ⟨⟩

/-- The lamp calls itself a lamp, whether it is on or off: its name may be asked for ahead of time, as
in `(lamp.on = true) ? "Lamp" : ""`. -/
theorem eval_fold_name :
    let named := scope fun o => pure o.typeName
    let n := switchedOn spelled
    let n' := switchedOn (.str "Lamp")
    n.membersPlain = true ∧ n.ObjectsIn name.holds ∧ named.Upholds name machine.world ∧
      (fold n).perform named machine = (.ok n', machine) ∧
      ((evalValue n').perform named machine).1 = .ok (.str "Lamp") ∧
      (machine = machine ∧ (eval n').perform named machine = (eval n).perform named machine ∧
        n'.hostCalls named machine = n.hostCalls named machine) := by
  intro named n n'
  have hplain : n.membersPlain = true := rfl
  have hk : n.ObjectsIn name.holds := by
    intro o hmem
    show o = lamp
    simpa [n, switchedOn, spelled, Node.subtrees, Node.allSubtrees] using hmem
  have hupholds : named.Upholds name machine.world := by
    constructor
    · rintro _ rfl w' -
      rfl
    · rintro _ rfl ⟨⟩
  have hfold : (fold n).perform named machine = (.ok n', machine) := rfl
  have hvalue : ((evalValue n').perform named machine).1 = .ok (.str "Lamp") := rfl
  exact ⟨hplain, hk, hupholds, hfold, hvalue, eval_fold hplain hk hupholds hfold⟩

/-- A lamp that tells whether it is on. -/
def onOrOff : ObjectRef → StateM (World Bool) String :=
  fun _ w => match w.state with
    | true => ("on", w)
    | false => ("off", w)

/-- Such a lamp is asked too early: `(lamp.on = true) ? "" + lamp : ""` has the value `"on"`, and what
it is folded to has the value `"off"`. -/
theorem fold_asks_too_early :
    let n := switchedOn spelled
    let n' := switchedOn (.str "off")
    n.membersPlain = true ∧ (fold n).perform (scope onOrOff) machine = (.ok n', machine) ∧
      ((evalValue n).perform (scope onOrOff) machine).1 = .ok (.str "on") ∧
      ((evalValue n').perform (scope onOrOff) machine).1 = .ok (.str "off") := by
  intro n n'
  refine ⟨rfl, ?_, ?_, rfl⟩
  · show (fold (switchedOn spelled)).perform (scope onOrOff) machine = _
    simp only [switchedOn, spelled, fold, foldAll]
    rfl
  · -- The lamp is on by the time that it is asked.
    have hassign : (eval (.apply .assign [.apply .member [.object lamp, .ident "on"],
        .bool true])).perform (scope onOrOff) machine = (.ok (machine.stack.place (.bool true)),
          ⟨machine.stack.holding (.bool true), ⟨true, 1⟩⟩) := rfl
    have hspelled : (evalValue spelled).perform (scope onOrOff) ⟨machine.stack, ⟨true, 1⟩⟩
        = (.ok (.str "on"), ⟨machine.stack, ⟨true, 1⟩⟩) := rfl
    show ((evalValue (switchedOn spelled)).perform (scope onOrOff) machine).1 = _
    rw [switchedOn, evalValue, eval_ternary, popped_bind, perform_bind, hassign]
    show ((evalValue spelled).perform (scope onOrOff) ⟨machine.stack, ⟨true, 1⟩⟩).1 = _
    rw [hspelled]

end Lamp

end Edict
