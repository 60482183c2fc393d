import Edict.Proofs.Shown

namespace Edict

open Lexer Edict.Parser Node

/-! # Expressions that their text identifies

What blurs the text of a parsed expression is a member or a float behind a point, a point between two
numbers, and a float that is too large.  Where nothing of this is in it (`Node.Clear`), the text
identifies the expression: no other clear expression has it.

Main statements:

* `eq_of_shown_eq`: what the text shows of a clear expression tells which one it is;
* `text_eq_text_iff`: when the texts of what is read from two texts are equal;
* `text_blurs_members`: two expressions that their text does not tell apart.
-/

/-- A finite float is unpacked to a sign and a magnitude. -/
theorem exists_unpack_of_isFinite {v : Binary32} (h : v.isFinite = true) :
    ∃ negative m q, v.unpack = .finite negative m q := by
  unfold Binary32.isFinite at h
  split at h
  · next negative m q hunpack => exact ⟨negative, m, q, hunpack⟩
  · cases h

namespace Node

def isInt : Node → Bool
  | int _ => true
  | _ => false

def isFloat : Node → Bool
  | float _ => true
  | _ => false

/-- Whether the text shows this expression as another one. -/
def isBlurred : Node → Bool
  | float v => !v.isFinite
  | apply .member [left, right] =>
    right.isMember || right.isFloat || (left.isInt && right.isInt)
  | _ => false

/-- No part of the expression is shown as another one. -/
def Clear (n : Node) : Prop := ∀ part ∈ n.subtrees, part.isBlurred = false

instance (n : Node) : Decidable n.Clear :=
  inferInstanceAs (Decidable (∀ part ∈ n.subtrees, part.isBlurred = false))

section

variable {n : Node} {ns : List Node}

/-- A clear tree is clear at its root. -/
theorem Clear.self (h : n.Clear) : n.isBlurred = false := h n (mem_subtrees_self n)

/-- A clear tree is clear in its parts. -/
theorem clear_of_mem (h : ∀ part ∈ allSubtrees ns, part.isBlurred = false) : ∀ n ∈ ns, n.Clear :=
  fun n hn part hpart => h part (mem_allSubtrees_iff.mpr ⟨n, hn, hpart⟩)

theorem Clear.items {element : Kind} (h : (list element ns).Clear) : ∀ n ∈ ns, n.Clear := by
  rw [Clear, subtrees_list] at h
  exact clear_of_mem (List.forall_mem_cons.mp h).2

theorem Clear.fields {typeName : String} (h : (construct typeName ns).Clear) :
    ∀ n ∈ ns, n.Clear := by
  rw [Clear, subtrees_construct] at h
  exact clear_of_mem (List.forall_mem_cons.mp h).2

theorem Clear.operands {op : Op} (h : (apply op ns).Clear) : ∀ n ∈ ns, n.Clear := by
  rw [Clear, subtrees_apply] at h
  exact clear_of_mem (List.forall_mem_cons.mp h).2

end

/-! ## What is shown of a clear expression -/

/-- What is no member itself is just put behind the point. -/
theorem graft_of_not_isMember {left right : Node} (h : right.isMember = false) :
    graft left right = apply .member [left, right] := by
  unfold graft
  split
  · cases h
  · rfl

theorem isMember_apply {op : Op} {operands : List Node} (h : op ≠ .member) :
    (apply op operands).isMember = false := by
  unfold isMember
  split
  · next heq =>
    cases heq
    exact absurd rfl h
  · rfl

/-- Only members are written in another grouping. -/
theorem regroup_of_ne {op : Op} (h : op ≠ .member) (operands : List Node) :
    regroup op operands = apply op operands := by
  unfold regroup
  split
  · rw [if_neg h]
  · rfl

/-- Neither a member nor a float is shown as a member. -/
theorem isMember_shown {n : Node} (hn : Parsed n) (hmember : n.isMember = false)
    (hfloat : n.isFloat = false) : n.shown.isMember = false := by
  cases hn with
  | float h => cases hfloat
  | @apply op operands hop harity _ =>
    have hne : op ≠ .member := by
      rintro rfl
      rcases List.length_eq_two.mp harity with ⟨a, b, rfl⟩
      cases hmember
    rw [shown, regroup_of_ne hne]
    exact isMember_apply hne
  | int _ | bool _ | str _ | null | ident _ | list _ _ | construct _ _ =>
    simp only [shown]
    rfl

/-- A clear operation is shown as one on its own operands. -/
theorem shown_apply {op : Op} {operands : List Node} (hn : Parsed (apply op operands))
    (h : (apply op operands).Clear) : (apply op operands).shown = apply op (allShown operands) := by
  rw [shown]
  by_cases hmember : op = .member
  · cases hn with
    | apply _ harity hoperands =>
      subst hmember
      rcases List.length_eq_two.mp harity with ⟨a, b, rfl⟩
      have hclear := h.self
      simp only [isBlurred, Bool.or_eq_false_iff] at hclear
      exact graft_of_not_isMember
        (isMember_shown (hoperands b (by simp)) hclear.1.1 hclear.1.2)
  · exact regroup_of_ne hmember _

end Node

/-! ## Names -/

/-- The literals and names that are shown as a name. -/
inductive IsNamed : Node → String → Prop
  | int {v : Int32} (h : 0 ≤ v) : IsNamed (.int v) (toString v.toInt)
  | bool (b : Bool) : IsNamed (.bool b) (boolText b)
  | ident {name : String} (h : IsName name) : IsNamed (.ident name) name

/-- What is shown as the name. -/
def Node.ofName (name : String) : Node :=
  match intLiteral? name with
  | some v => .int v
  | none => if name = "true" then .bool true else if name = "false" then .bool false else .ident name

section

variable {m n : Node} {name : String}

/-- A name does not begin with a digit, and so is no integer. -/
theorem exists_not_isDigit_of_isName (h : IsName name) :
    ∃ c cs, name.toList = c :: cs ∧ isDigit c = false := by
  rcases mem_oneOf_mul.mp h.identifier with ⟨c, cs, hname, hc, -⟩
  refine ⟨c, cs, hname, Bool.eq_false_iff.mpr fun hdigit => ?_⟩
  rw [not_isWordStart_of_isDigit hdigit] at hc
  cases hc

theorem intLiteral?_of_isName (h : IsName name) : intLiteral? name = none := by
  rcases mem_oneOf_mul.mp h.identifier with ⟨c, cs, hname, hc, -⟩
  have hsign : cutSign (c :: cs) = (false, c :: cs) := by
    unfold cutSign
    split
    · next heq =>
      cases heq
      cases hc
    · next heq =>
      cases heq
      cases hc
    · rfl
  have hdigit : digit? c = none := by
    rw [digit?, if_neg]
    intro hdigit
    rw [not_isWordStart_of_isDigit (by simpa [isDigit] using hdigit)] at hc
    cases hc
  rw [intLiteral?, hname, integer?, hsign]
  dsimp only
  rw [decimal?, digits?, hdigit]
  · rfl
  · simp

/-- What a name or an index is shown as tells which it is. -/
theorem IsNamed.ofName_eq (h : IsNamed n name) : Node.ofName name = n := by
  cases h with
  | int h => rw [Node.ofName, intLiteral?_of_nonneg h]
  | bool b => cases b <;> rfl
  | ident h =>
    have hvalue := h.notValue
    simp only [List.mem_cons, not_or] at hvalue
    rw [Node.ofName, intLiteral?_of_isName h]
    simp only [hvalue.1, hvalue.2.1, if_false]

theorem IsNamed.isInt (h : IsNamed n name) (hdigits : ∀ c ∈ name.toList, isDigit c = true) :
    n.isInt = true := by
  cases h with
  | int h => rfl
  | bool b => cases b <;> exact absurd (hdigits 'e' (by decide)) (by decide)
  | ident h =>
    rcases exists_not_isDigit_of_isName h with ⟨c, cs, hname, hc⟩
    rw [hdigits c (by rw [hname]; exact List.mem_cons_self)] at hc
    cases hc

end

/-! ## How a clear expression is shown -/

/-- The two forms of a clear expression: the one it has, and the one it is shown in. -/
inductive ShownAs : Node → Node → Prop
  | name {n : Node} {name : String} (h : IsNamed n name) : ShownAs n (.ident name)
  | float {v : Binary32} {whole fraction : String} (hfinite : v.isFinite = true)
      (hpointed : Pointed whole.toList fraction.toList) :
      ShownAs (.float v) (.apply .member [.ident whole, .ident fraction])
  | str (s : String) : ShownAs (.str s) (.str s)
  | null : ShownAs .null .null
  | list {element : Kind} {items items' : List Node} (h : items' = allShown items) :
      ShownAs (.list element items) (.list element items')
  | construct {typeName : String} {fields fields' : List Node} (h : fields' = allShown fields) :
      ShownAs (.construct typeName fields) (.construct typeName fields')
  | apply {op : Op} {operands operands' : List Node} (h : operands' = allShown operands) :
      ShownAs (.apply op operands) (.apply op operands')

section

variable {m n : Node}

/-- A float in a clear tree is finite. -/
theorem isFinite_of_clear {v : Binary32} (h : (Node.float v).Clear) : v.isFinite = true := by
  simpa [isBlurred] using h.self

/-- A clear tree is shown as something that tells which tree it is. -/
theorem shownAs_shown (hn : Parsed n) (hclear : n.Clear) : ShownAs n n.shown := by
  cases hn with
  -- A float is shown as its digits on both sides of a point.
  | float hdigit hv =>
    have hfinite := isFinite_of_clear hclear
    rcases exists_unpack_of_isFinite hfinite with ⟨_, _, _, hunpack⟩
    rcases exists_spells_text (isNegative_of_floatLiteral? hdigit hv) hunpack with ⟨x, hx⟩
    rcases ofFloatText_of_spells hx with ⟨whole, fraction, hpointed, htext⟩
    rw [shown, htext]
    refine .float hfinite ?_
    rwa [String.toList_ofList, String.toList_ofList]
  -- Only what members hold is regrouped.
  | apply hop harity hoperands =>
    rw [shown_apply (.apply hop harity hoperands) hclear]
    exact .apply rfl
  | int hv =>
    rw [shown]
    exact .name (.int hv)
  | bool b =>
    rw [shown]
    exact .name (.bool b)
  | ident hname =>
    rw [shown]
    exact .name (.ident hname)
  | str s =>
    rw [shown]
    exact .str s
  | null =>
    rw [shown]
    exact .null
  | list _ _ =>
    rw [shown]
    exact .list rfl
  | construct _ _ =>
    rw [shown]
    exact .construct rfl

/-- What a tree that is shown alike is shown as tells the clear one, too. -/
theorem shownAs_of_shown_eq (hn : Parsed n) (hclear : n.Clear) (h : m.shown = n.shown) :
    ShownAs n m.shown := h ▸ shownAs_shown hn hclear

/-- Only one clear expression is shown as a name. -/
theorem IsNamed.eq_of_shownAs {name : String} (h : IsNamed m name)
    (hshown : ShownAs n (.ident name)) : m = n := by
  cases hshown with
  | name h' => rw [← h.ofName_eq, h'.ofName_eq]

/-- A name of digits is only that of an integer. -/
theorem isInt_of_shownAs {name : String} (hdigits : ∀ c ∈ name.toList, isDigit c = true)
    (h : ShownAs n (.ident name)) : n.isInt = true := by
  cases h with
  | name h => exact h.isInt hdigits

/-- A clear member is not shown as a float is: it would be the member of a number by a number. -/
theorem allShown_ne_of_pointed {operands : List Node} {whole fraction : String}
    (hn : Parsed (.apply .member operands)) (hclear : (Node.apply .member operands).Clear)
    (hpointed : Pointed whole.toList fraction.toList) :
    allShown operands ≠ [.ident whole, .ident fraction] := by
  intro h
  cases hn with
  | apply _ harity hparsed =>
    rcases List.length_eq_two.mp harity with ⟨a, b, rfl⟩
    rw [allShown_eq_map] at h
    rcases List.cons.inj h with ⟨ha, htail⟩
    have hb := (List.cons.inj htail).1
    have hshown : ∀ n ∈ [a, b], ShownAs n n.shown := fun n hn =>
      shownAs_shown (hparsed n hn) (hclear.operands n hn)
    have hwhole : a.isInt = true :=
      isInt_of_shownAs hpointed.isDigit_whole (ha ▸ hshown a (by simp))
    have hfraction : b.isInt = true :=
      isInt_of_shownAs hpointed.isDigit_fraction (hb ▸ hshown b (by simp))
    have hblurred := hclear.self
    rw [isBlurred, hwhole, hfraction, Bool.and_self, Bool.or_true] at hblurred
    cases hblurred

/-- Finite floats that are shown alike are equal. -/
theorem eq_of_shown_float {v w : Binary32} (hv : v.isFinite = true) (hw : w.isFinite = true)
    (h : (Node.float v).shown = (Node.float w).shown) : v = w := by
  rcases exists_unpack_of_isFinite hv with ⟨_, _, _, hunpack⟩
  rcases exists_unpack_of_isFinite hw with ⟨_, _, _, hunpack'⟩
  refine eq_of_text_eq hunpack hunpack' ?_
  have htext := congrArg Node.text h
  rwa [shown, shown, text_ofFloatText, text_ofFloatText] at htext

end

/-! ## The text identifies the expression -/

/-- Lists of trees that are shown alike are equal, if their members are. -/
theorem eq_of_allShown_eq {ms ns : List Node}
    (h : ∀ m ∈ ms, ∀ n ∈ ns, m.shown = n.shown → m = n) (heq : allShown ms = allShown ns) :
    ms = ns := by
  induction ms generalizing ns with
  | nil =>
    cases ns with
    | nil => rfl
    | cons n ns => cases heq
  | cons m ms ih =>
    cases ns with
    | nil => cases heq
    | cons n ns =>
      rw [allShown, allShown] at heq
      rcases List.cons.inj heq with ⟨hhead, htail⟩
      rw [h m List.mem_cons_self n List.mem_cons_self hhead, ih ?_ htail]
      exact fun a ha b hb => h a (List.mem_cons_of_mem m ha) b (List.mem_cons_of_mem n hb)

/-- A clear expression is shown as no other one. -/
theorem eq_of_shown_eq {m n : Node} (hm : Parsed m) (hn : Parsed n) (hm' : m.Clear)
    (hn' : n.Clear) (h : m.shown = n.shown) : m = n := by
  -- The induction is on the first tree; what the second is shown as leaves it no other shape.
  induction hm generalizing n with
  | int hv =>
    have hboth := shownAs_of_shown_eq hn hn' h
    rw [shown] at hboth
    exact (IsNamed.int hv).eq_of_shownAs hboth
  | bool b =>
    have hboth := shownAs_of_shown_eq hn hn' h
    rw [shown] at hboth
    exact (IsNamed.bool b).eq_of_shownAs hboth
  | ident hname =>
    have hboth := shownAs_of_shown_eq hn hn' h
    rw [shown] at hboth
    exact (IsNamed.ident hname).eq_of_shownAs hboth
  | str s =>
    have hboth := shownAs_of_shown_eq hn hn' h
    rw [shown] at hboth
    cases hboth
    rfl
  | null =>
    have hboth := shownAs_of_shown_eq hn hn' h
    rw [shown] at hboth
    cases hboth
    rfl
  | float hdigit hv =>
    have hshown := shownAs_shown (.float hdigit hv) hm'
    have hboth := shownAs_of_shown_eq hn hn' h
    generalize (Node.float _).shown = k at hshown hboth
    cases hshown with
    | name h => cases h
    | float hfinite hpointed =>
      cases hboth with
      | float hfinite' _ => rw [eq_of_shown_float hfinite hfinite' h]
      -- A member whose parts are digits would be shown as a float, but then it is not clear.
      | apply hoperands' => exact absurd hoperands'.symm (allShown_ne_of_pointed hn hn' hpointed)
  | list hkind hitems ih =>
    have hboth := shownAs_of_shown_eq hn hn' h
    rw [shown] at hboth
    cases hboth with
    | list hitems' =>
      cases hn with
      | list _ hparsed =>
        rw [eq_of_allShown_eq (fun m hm n hn => ?_) hitems']
        exact ih m hm (hparsed n hn) (hm'.items m hm) (hn'.items n hn)
  | construct htag hfields ih =>
    have hboth := shownAs_of_shown_eq hn hn' h
    rw [shown] at hboth
    cases hboth with
    | construct hfields' =>
      cases hn with
      | construct _ hparsed =>
        rw [eq_of_allShown_eq (fun m hm n hn => ?_) hfields']
        exact ih m hm (hparsed n hn) (hm'.fields m hm) (hn'.fields n hn)
  | @apply op operands hop harity hoperands ih =>
    have hboth := shownAs_of_shown_eq hn hn' h
    have hm : Parsed (.apply op operands) := .apply hop harity hoperands
    rw [shown_apply hm hm'] at hboth
    generalize hoperands' : allShown operands = operands' at hboth
    cases hboth with
    | float hfinite hpointed => exact absurd hoperands' (allShown_ne_of_pointed hm hm' hpointed)
    | apply heq =>
      cases hn with
      | apply _ _ hparsed =>
        rw [eq_of_allShown_eq (fun m hm n hn => ?_) (hoperands'.trans heq)]
        exact ih m hm (hparsed n hn) (hm'.operands m hm) (hn'.operands n hn)

/-- Two texts are read as expressions that have the same text just if this shows the same of both;
where both are clear, they are equal. -/
theorem text_eq_text_iff {s t : String} {us vs : List Token} {m n : Node}
    (hs : tokenize s = .ok us) (hm : parseSingleExpression us = .ok m)
    (ht : tokenize t = .ok vs) (hn : parseSingleExpression vs = .ok n) :
    (m.text = n.text ↔ m.shown = n.shown) ∧ (m.Clear → n.Clear → m.text = n.text → m = n) := by
  have hm := parsed_of_parseSingleExpression hs hm
  have hn := parsed_of_parseSingleExpression ht hn
  have hiff := text_eq_iff_shown_eq hm hn
  exact ⟨hiff, fun hm' hn' h => eq_of_shown_eq hm hn hm' hn' (hiff.mp h)⟩

/-- A product with a member by index and a float, and the same with parentheses and a zero more. -/
theorem text_eq_text_iff_product :
    let us : List Token := [⟨.identifier, some "a", ⟨0, 1⟩⟩, ⟨.dot, none, ⟨1, 2⟩⟩,
      ⟨.int, some "2", ⟨2, 3⟩⟩, ⟨.mul, none, ⟨4, 5⟩⟩, ⟨.float, some "1.5", ⟨6, 9⟩⟩]
    let vs : List Token := [⟨.openParen, none, ⟨0, 1⟩⟩, ⟨.identifier, some "a", ⟨1, 2⟩⟩,
      ⟨.dot, none, ⟨2, 3⟩⟩, ⟨.int, some "2", ⟨3, 4⟩⟩, ⟨.closeParen, none, ⟨4, 5⟩⟩,
      ⟨.mul, none, ⟨6, 7⟩⟩, ⟨.float, some "1.50", ⟨8, 12⟩⟩]
    let n : Node := .apply .mul [.apply .member [.ident "a", .int 2], .float ⟨0x3FC00000⟩]
    tokenize "a.2 * 1.5" = .ok us ∧ tokenize "(a.2) * 1.50" = .ok vs ∧ n.Clear ∧
      n.text = "(a.2 * 1.5)" ∧ ∃ m, parseSingleExpression us = .ok m ∧
        parseSingleExpression vs = .ok n ∧ m = n := by
  intro us vs n
  have hs : tokenize "a.2 * 1.5" = .ok us := by decide +kernel
  have ht : tokenize "(a.2) * 1.50" = .ok vs := by decide +kernel
  have hm : parseSingleExpression us = .ok n := parseSingleExpression_of_some rfl
  have hn : parseSingleExpression vs = .ok n := parseSingleExpression_of_some rfl
  have hclear : n.Clear := by decide
  exact ⟨hs, ht, hclear, by decide +kernel, n, hm, hn,
    (text_eq_text_iff hs hm ht hn).2 hclear hclear rfl⟩

/-- A member of a member, and a member by what is itself one: the second loses its parentheses. -/
theorem text_blurs_members :
    let us : List Token := [⟨.identifier, some "a", ⟨0, 1⟩⟩, ⟨.dot, none, ⟨1, 2⟩⟩,
      ⟨.identifier, some "b", ⟨2, 3⟩⟩, ⟨.dot, none, ⟨3, 4⟩⟩, ⟨.identifier, some "c", ⟨4, 5⟩⟩]
    let vs : List Token := [⟨.identifier, some "a", ⟨0, 1⟩⟩, ⟨.dot, none, ⟨1, 2⟩⟩,
      ⟨.openParen, none, ⟨2, 3⟩⟩, ⟨.identifier, some "b", ⟨3, 4⟩⟩, ⟨.dot, none, ⟨4, 5⟩⟩,
      ⟨.identifier, some "c", ⟨5, 6⟩⟩, ⟨.closeParen, none, ⟨6, 7⟩⟩]
    let m : Node := .apply .member [.apply .member [.ident "a", .ident "b"], .ident "c"]
    let n : Node := .apply .member [.ident "a", .apply .member [.ident "b", .ident "c"]]
    tokenize "a.b.c" = .ok us ∧ parseSingleExpression us = .ok m ∧
      tokenize "a.(b.c)" = .ok vs ∧ parseSingleExpression vs = .ok n ∧
      m.text = "a.b.c" ∧ n.text = "a.b.c" ∧ m ≠ n := by
  intro us vs m n
  exact ⟨by decide +kernel, parseSingleExpression_of_some rfl, by decide +kernel,
    parseSingleExpression_of_some rfl, by decide, by decide, by simp [m, n]⟩

end Edict
