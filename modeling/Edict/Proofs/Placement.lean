import Edict.Proofs.Contexts

namespace Edict

open Edict.Parser Grammar

/-! # Where tokens may stand

The parser does not check that operators and operands take turns: `1 2 +` reads as the sum of the
two and `()1` as `1`.  Whether each token stands where the grammar has room for it can be seen from
the token before it alone (`placed`).  This is exactly what is missing: of the tokens that the
parser accepts, those of the grammar are the ones that are placed.

Main statements:

* `at_scan`: as long as tokens are placed, the parser is at a place of a derivation;
* `placed_of_single`: the tokens of a derivation are placed;
* `single_iff_placed`: an accepted list of tokens is derivable just if it is placed.
-/

/-! ## Tokens and the tokens before them -/

/-- Whether an operand is due behind the token. -/
def TokenKind.leavesDue (kind : TokenKind) : Bool :=
  kind = .openParen || kind = .openBracket || kind = .openBrace || kind = .comma ||
    kind = .question || kind = .colon || kind = .assign || kind.dyadic?.isSome ||
    kind.monadic?.isSome

/-- Whether an operand is due behind the token, or at the beginning. -/
def operandDue (before? : Option Token) : Bool := before?.all fun t => t.kind.leavesDue

/-- Whether an expression begins behind the token that may also be left out: at the beginning, in a
bracket or behind a comma. -/
def itemDue (before? : Option Token) : Bool :=
  before?.all fun t => opensFrame t.kind || t.kind = .comma

/-- Whether the grammar has room for a token behind the one before it. -/
def fits (before? : Option Token) (t : Token) : Bool :=
  match t.kind with
  | .int | .float | .bool | .str | .identifier | .openParen | .not => operandDue before?
  | .openBracket | .openBrace =>
    operandDue before? || before?.any fun before => before.kind = .identifier
  | .closeBracket | .closeBrace => !operandDue before? || itemDue before?
  | .add | .sub => true
  | _ => !operandDue before?

/-- Whether each token stands where the grammar has room for it. -/
def placed (before? : Option Token) : List Token → Bool
  | [] => !operandDue before? || itemDue before?
  | t :: ts => fits before? t && placed (some t) ts

/-! ## Places in a derivation -/

/-- The slot holds what has been read of an expression, the tokens of the second argument; the token
read last of all is the first argument. -/
inductive At : Option Token → List Token → Slot → Prop
  /-- Nothing has been read of it. -/
  | fresh {before? : Option Token} (h : itemDue before? = true) : At before? [] .empty
  /-- An operand is due. -/
  | due {k : Nat} {u : List Token} {nodes : List Node} {pending : List Pending} {t : Token}
      (h : BinDue k (u ++ [t]) nodes pending) (ht : t.kind.startsOperand = true) :
      At (some t) (u ++ [t]) ⟨nodes, pending, some t⟩
  /-- An operand has just been read. -/
  | done {k : Nat} {u ts : List Token} {nodes : List Node} {pending : List Pending} {t : Token}
      {n : Node} (h : BinDue k u nodes pending) (hn : Atom (ts ++ [t]) n)
      (ht : t.kind.leavesDue = false) :
      At (some t) (u ++ (ts ++ [t])) ⟨n :: nodes, pending, some t⟩

/-- Behind a token that starts an operand, an operand is due. -/
theorem leavesDue_of_startsOperand {kind : TokenKind} (h : kind.startsOperand = true) :
    kind.leavesDue = true := by
  revert h
  cases kind <;> intro h <;> first | rfl | cases h

theorem startsOperand_of_leavesDue {kind : TokenKind} (h : kind.leavesDue = false) :
    kind.startsOperand = false := by
  revert h
  cases kind <;> intro h <;> first | rfl | cases h

/-- Behind a value, no operand is due. -/
theorem not_leavesDue_of_isValue {kind : TokenKind} (h : kind.isValue = true) :
    kind.leavesDue = false := by
  revert h
  cases kind <;> intro h <;> first | rfl | cases h

theorem not_itemDue_of_startsOperand {t : Token} (h : t.kind.startsOperand = true) :
    itemDue (some t) = false := by
  revert h
  simp only [itemDue, Option.all_some]
  cases t.kind <;> intro h <;> first | rfl | cases h

/-- Where an item is due, an operand is due. -/
theorem operandDue_of_itemDue {before? : Option Token} (h : itemDue before? = true) :
    operandDue before? = true := by
  cases before? with
  | none => rfl
  | some t =>
    revert h
    simp only [itemDue, operandDue, Option.all_some]
    cases t.kind <;> intro h <;> first | rfl | cases h

/-! ### One token -/

section

variable {before? : Option Token} {slot slot' : Slot} {t : Token}

/-- What may stand where an operand is due. -/
theorem kind_of_operandDue (hdue : operandDue before? = true) (hplain : IsPlain t.kind)
    (hfits : fits before? t = true) :
    t.kind.isValue = true ∨ t.kind = .openParen ∨ ∃ op l, t.kind.monadic? = some (op, l) := by
  simp only [fits, hdue] at hfits
  generalize t.kind = kind at hplain hfits ⊢
  cases kind <;> first
    | exact .inl rfl
    | exact .inr (.inl rfl)
    | exact .inr (.inr ⟨_, _, rfl⟩)
    | exact absurd hplain (by decide)
    | cases hfits

/-- What may stand where no operand is due, as far as the parser knows it. -/
theorem kind_of_not_operandDue (hdue : operandDue before? = false) (hplain : IsPlain t.kind)
    (hfits : fits before? t = true) :
    (∃ op l, t.kind.dyadic? = some (op, l)) ∨ t.kind = .assign ∨ t.kind = .question ∨
      t.kind = .colon ∨ t.kind = .closeParen ∨ t.kind = .pipe ∨ t.kind = .amp := by
  simp only [fits, hdue] at hfits
  generalize t.kind = kind at hplain hfits ⊢
  cases kind <;> first
    | exact .inl ⟨_, _, rfl⟩
    | exact .inr (by decide)
    | exact absurd hplain (by decide)
    | cases hfits

/-- Where an operand is due, reading a token that fits leads to a place again. -/
theorem at_read_of_due {k : Nat} {u : List Token} (h : BinDue k u slot.nodes slot.pending)
    (hexpects : slot.expectsOperand = true) (hdue : operandDue before? = true)
    (hplain : IsPlain t.kind) (hfits : fits before? t = true) (hread : slot.read t = .ok slot') :
    At (some t) (u ++ [t]) slot' := by
  rcases kind_of_operandDue hdue hplain hfits with hvalue | hparen | ⟨op, l, hmonadic⟩
  · cases hnode : valueNode t with
    | ok n =>
      rw [read_of_isValue hvalue hnode] at hread
      cases hread
      have hleaf : Atom ([] ++ [t]) n := .leaf (leaf?_of_valueNode hvalue hnode)
      exact .done h hleaf (not_leavesDue_of_isValue hvalue)
    | error e =>
      rw [read_of_isValue_error hvalue hnode] at hread
      cases hread
  · have hread' : slot.read t = .ok ⟨slot.nodes, .paren t.span :: slot.pending, some t⟩ := by
      simp only [Slot.read, hparen]
    rw [hread'] at hread
    cases hread
    exact .due (.tern (.expr (.paren h hparen))) (by rw [hparen]; rfl)
  · rw [read_of_monadic? hmonadic hexpects] at hread
    cases hread
    exact .due (.monadic h hmonadic) (startsOperand_of_monadic? hmonadic)

/-- Behind an operand, reading a token that fits leads to a place again. -/
theorem at_read_of_done {k : Nat} {u ts : List Token} {nodes : List Node} {pending : List Pending}
    {n : Node} {last : Token} (h : BinDue k u nodes pending) (hn : Atom ts n)
    (hlast : last.kind.leavesDue = false) (hplain : IsPlain t.kind)
    (hfits : fits (some last) t = true)
    (hread : (⟨n :: nodes, pending, some last⟩ : Slot).read t = .ok slot') :
    At (some t) (u ++ ts ++ [t]) slot' := by
  have hexpects : (⟨n :: nodes, pending, some last⟩ : Slot).expectsOperand = false :=
    startsOperand_of_leavesDue hlast
  rcases kind_of_not_operandDue (by simpa [operandDue] using hlast) hplain hfits with
    ⟨op, l, ht⟩ | ht | ht | ht | ht | ht | ht
  · -- an operator between operands
    rw [read_of_dyadic? ht hexpects] at hread
    rcases bind_eq_ok_iff.1 hread with ⟨⟨nodes', pending'⟩, hreduce, hread⟩
    cases hread
    exact .due (binDue_of_dyadic h hn ht hreduce) (startsOperand_of_dyadic? ht)
  · -- `=`
    rw [read_of_assign ht] at hread
    rcases bind_eq_ok_iff.1 hread with ⟨⟨nodes', pending'⟩, hreduce, hread⟩
    cases hread
    exact .due (.tern (ternDue_of_assign h hn ht hreduce)) (by rw [ht]; rfl)
  · -- `?`
    simp only [Slot.read, ht] at hread
    rcases bind_eq_ok_iff.1 hread with ⟨⟨nodes', pending'⟩, hreduce, hread⟩
    cases hread
    exact .due (.tern (.expr (exprDue_of_question h hn ht hreduce))) (by rw [ht]; rfl)
  · -- `:`
    simp only [Slot.read, ht] at hread
    rcases bind_eq_ok_iff.1 hread with ⟨⟨nodes', pending'⟩, hreduce, hread⟩
    cases hread
    exact .due (.tern (ternDue_of_colon h hn ht hreduce)) (by rw [ht]; rfl)
  · -- a closing parenthesis
    simp only [Slot.read, ht] at hread
    rcases bind_eq_ok_iff.1 hread with ⟨⟨nodes', pending'⟩, hreduce, hread⟩
    cases hread
    rcases exists_atom_of_closeParen h hn ht hreduce with
      ⟨k', u', ts', nodes'', n', rfl, htokens, hdue, hatom⟩
    rw [← htokens]
    exact .done hdue hatom (by rw [ht]; rfl)
  -- `|` and `&` are no operators and never read without complaint.
  · simp [Slot.read, ht, TokenKind.isValue, TokenKind.symbol?, Slot.binding?, hexpects,
      TokenKind.binding?] at hread
  · simp [Slot.read, ht, TokenKind.isValue, TokenKind.symbol?, Slot.binding?, hexpects,
      TokenKind.binding?] at hread

/-- A token that fits is read, and what is read so far grows by it. -/
theorem at_read {u : List Token} (h : At before? u slot) (hplain : IsPlain t.kind)
    (hfits : fits before? t = true) (hread : slot.read t = .ok slot') :
    At (some t) (u ++ [t]) slot' := by
  cases h with
  | fresh h =>
    exact at_read_of_due (.tern (.expr .start)) rfl (operandDue_of_itemDue h) hplain hfits hread
  | @due k u nodes pending last h ht =>
    have hexpects : (⟨nodes, pending, some last⟩ : Slot).expectsOperand = true := ht
    have hdue : operandDue (some last) = true := leavesDue_of_startsOperand ht
    exact at_read_of_due h hexpects hdue hplain hfits hread
  | done h hn ht =>
    exact at_read_of_done h hn ht hplain hfits hread

end

/-! ### Brackets -/

/-- Finished items of a bracket, newest first, each with a comma behind it. -/
inductive Items : List Token → List Node → Prop
  | nil : Items [] []
  | snoc {its ts : List Token} {items : List Node} {n : Node} {c : Token} (h : Items its items)
      (hn : Expr ts n) (hc : c.kind = .comma) : Items (its ++ (ts ++ [c])) (n :: items)

/-- Items and a list of expressions make a list of expressions. -/
theorem Items.params {its rest : List Token} {items ns : List Node} (h : Items its items)
    (hrest : Params rest ns) : Params (its ++ rest) (items.reverse ++ ns) := by
  induction h generalizing rest ns with
  | nil => exact hrest
  | snoc h hn hc ih => simpa using ih (.cons hn hc hrest)

/-- What has been read before the innermost slot: each bracket stands where an operand is due, and
holds finished items. -/
inductive Around : List Token → List Frame → Prop
  | nil : Around [] []
  | cons {k : Nat} {pre u tag its : List Token} {f : Frame} {frames : List Frame}
      (h : Around pre frames) (hdue : BinDue k u f.outer.nodes f.outer.pending)
      (htag : Tag tag f.tag) (ho : opensFrame f.opening.kind = true) (hits : Items its f.items) :
      Around (pre ++ (u ++ (tag ++ f.opening :: its))) (f :: frames)

section

variable {before? : Option Token} {slot : Slot} {t : Token} {u pre : List Token} {f : Frame}
  {frames : List Frame}

/-- An atom ends with a token that stands alone, or with one that closes. -/
theorem last_of_atom {ts : List Token} {n : Node} (h : Atom ts n) :
    (∃ t, ts = [t]) ∨ ∃ ts' c, ts = ts' ++ [c] ∧
      (c.kind = .closeParen ∨ c.kind = .closeBracket ∨ c.kind = .closeBrace) := by
  cases h with
  | @leaf t n ht => exact .inl ⟨t, rfl⟩
  | @paren ts o c n ho h hc => exact .inr ⟨o :: ts, c, rfl, .inl hc⟩
  | @list tag ts text o c items htag ho h hc =>
    exact .inr ⟨tag ++ o :: ts, c, by simp, .inr (.inl hc)⟩
  | @object tag ts text o c fields htag ho h hc =>
    exact .inr ⟨tag ++ o :: ts, c, by simp, .inr (.inr hc)⟩

/-- An operand that ends with an identifier is nothing but the identifier. -/
theorem eq_nil_of_atom {ts : List Token} {n : Node} {i : Token} (h : Atom (ts ++ [i]) n)
    (hi : i.kind = .identifier) : ts = [] := by
  rcases last_of_atom h with ⟨t, ht⟩ | ⟨ts', c, htokens, hc⟩
  · cases ts with
    | nil => rfl
    | cons t' ts => simp at ht
  · have hlast := (List.append_inj' htokens rfl).2
    cases hlast
    rw [hi] at hc
    simp at hc

/-- A bracket behind an operand takes it for its tag. -/
theorem identifier_of_fits {last : Token} (ht : opensFrame t.kind = true)
    (hfits : fits (some last) t = true) (hlast : last.kind.leavesDue = false) :
    last.kind = .identifier := by
  have hkind : t.kind = .openBracket ∨ t.kind = .openBrace := by simpa [opensFrame] using ht
  rcases hkind with hkind | hkind <;> simpa [fits, hkind, operandDue, hlast] using hfits

/-- A bracket that fits puts what is before it around itself. -/
theorem around_open (h : At before? u slot) (ht : opensFrame t.kind = true)
    (hfits : fits before? t = true) (hpre : Around pre frames) :
    Around (pre ++ (u ++ [t])) (Frame.ofToken slot t :: frames) := by
  cases h with
  | fresh h =>
    exact .cons (f := ⟨t, "", [], .empty⟩) hpre (.tern (.expr .start)) .none ht .nil
  | @due k u nodes pending last h hlast =>
    have hexpects : (⟨nodes, pending, some last⟩ : Slot).expectsOperand = true := hlast
    rw [ofToken_of_expectsOperand hexpects]
    exact .cons (f := ⟨t, "", [], ⟨nodes, pending, some last⟩⟩) hpre h .none ht .nil
  | @done k u ts nodes pending last n h hn hlast =>
    have hident := identifier_of_fits ht hfits hlast
    obtain rfl := eq_nil_of_atom hn hident
    rw [ofToken_of_identifier rfl hident]
    have hcons := Around.cons (f := ⟨t, last.text, [], ⟨nodes, pending, some last⟩⟩) hpre h
      (.ident hident) ht .nil
    simpa using hcons

/-- What is finished where an expression may end is one. -/
theorem expr_of_at {ts : List Token} {n : Node} {place : Span} (h : At before? ts slot)
    (hend : operandDue before? = false ∨ itemDue before? = true)
    (hfinish : slot.finish place = .ok n) : Expr ts n := by
  cases h with
  | fresh h => cases hfinish
  | @due k u nodes pending last h ht =>
    have hoperand : operandDue (some last) = true := leavesDue_of_startsOperand ht
    rw [hoperand, not_itemDue_of_startsOperand ht] at hend
    simp at hend
  | done h hn ht => exact expr_of_finish h hn hfinish

/-- A comma that fits adds an item to the bracket around it. -/
theorem around_comma {n : Node} {place : Span} (h : At before? u slot) (ht : t.kind = .comma)
    (hfits : fits before? t = true) (hpre : Around pre (f :: frames))
    (hfinish : slot.finish place = .ok n) :
    Around (pre ++ (u ++ [t])) ({ f with items := n :: f.items } :: frames) := by
  have hdue : operandDue before? = false := by
    simpa [fits, ht] using hfits
  have hn := expr_of_at h (.inl hdue) hfinish
  cases hpre with
  | cons hpre houter htag ho hits =>
    have hcons := Around.cons (f := { f with items := n :: f.items }) hpre houter htag ho
      (.snoc hits hn ht)
    simpa using hcons

/-- What stands between a bracket and its closing token are items. -/
theorem params_of_close {its : List Token} {items : List Node} {place : Span}
    (h : At before? u slot) (hdue : operandDue before? = false ∨ itemDue before? = true)
    (hits : Items its f.items) (hclose : f.close slot place = .ok items) :
    Params (its ++ u) items.reverse := by
  cases h with
  | fresh h =>
    cases hclose
    simpa using hits.params .nil
  | @due k u nodes pending last h ht =>
    have hoperand : operandDue (some last) = true := leavesDue_of_startsOperand ht
    rw [hoperand, not_itemDue_of_startsOperand ht] at hdue
    simp at hdue
  | done h hn ht =>
    rcases bind_eq_ok_iff.1 hclose with ⟨n, hfinish, hitems⟩
    cases hitems
    simpa using hits.params (.last (expr_of_finish h hn hfinish))

/-- A bracket that is closed is an atom. -/
theorem atom_of_bracket {tag ts : List Token} {items : List Node} (htag : Tag tag f.tag)
    (ho : opensFrame f.opening.kind = true) (h : Params ts items.reverse) (ht : t.kind = f.closer) :
    Atom (tag ++ f.opening :: (ts ++ [t])) (f.node items) := by
  by_cases hbracket : f.opening.kind = .openBracket
  · have hclose : t.kind = .closeBracket := by simpa [Frame.closer, hbracket] using ht
    simpa [Frame.node, hbracket] using Atom.list htag hbracket h hclose
  · have hbrace : f.opening.kind = .openBrace := by simpa [opensFrame, hbracket] using ho
    have hclose : t.kind = .closeBrace := by simpa [Frame.closer, hbracket] using ht
    simpa [Frame.node, hbracket] using Atom.object htag hbrace h hclose

/-- A closing token makes an operand of its bracket. -/
theorem around_close {items : List Node} {place : Span} (h : At before? u slot)
    (ht : t.kind = f.closer) (hfits : fits before? t = true) (hpre : Around pre (f :: frames))
    (hclose : f.close slot place = .ok items) :
    ∃ pre' u', pre' ++ u' = pre ++ (u ++ [t]) ∧ Around pre' frames ∧
      At (some t) u' (f.resume items t) := by
  cases hpre with
  | @cons k pre u₁ tag its f frames hpre houter htag ho hits =>
    have hcloser : t.kind = .closeBracket ∨ t.kind = .closeBrace := by
      rw [ht, Frame.closer]
      split <;> simp
    have hdue : operandDue before? = false ∨ itemDue before? = true := by
      rcases hcloser with hkind | hkind <;> simpa [fits, hkind] using hfits
    have hlast : t.kind.leavesDue = false := by
      rcases hcloser with hkind | hkind <;> rw [hkind] <;> rfl
    have hatom := atom_of_bracket htag ho (params_of_close h hdue hits hclose) ht
    have hassoc : tag ++ f.opening :: (its ++ u ++ [t])
        = tag ++ f.opening :: (its ++ u) ++ [t] := by simp
    rw [hassoc] at hatom
    exact ⟨pre, u₁ ++ (tag ++ f.opening :: (its ++ u) ++ [t]), by simp, hpre,
      .done houter hatom hlast⟩

end

/-! ### Reading on -/

/-- As long as tokens fit, the parser is at a place of a derivation. -/
theorem at_scan {stop : Span} {slot slot' : Slot} {frames : List Frame} {ts rest : List Token}
    (h : scan stop slot frames ts = .ok (slot', rest)) :
    ∀ {before? : Option Token} {pre u : List Token}, placed before? ts = true → At before? u slot →
      Around pre frames → ∃ before'? u', u' ++ rest = pre ++ (u ++ ts) ∧ At before'? u' slot' ∧
        placed before'? rest = true := by
  -- One case for each thing that the loop may do with the next token.
  fun_induction scan stop slot frames ts generalizing slot' rest with
  | case1 slot =>
    -- The input is at its end, outside of brackets.
    intro before? pre u hplaced hat hpre
    cases h
    cases hpre
    exact ⟨before?, u, rfl, hat, hplaced⟩
  | case2 slot f fs =>
    -- A bracket is left open.
    rcases bind_eq_ok_iff.1 h with ⟨_, _, h⟩
    cases h
  | case3 slot frames t ts hopen ih =>
    -- A bracket opens.
    intro before? pre u hplaced hat hpre
    rw [placed, Bool.and_eq_true] at hplaced
    have hitem : itemDue (some t) = true := by
      simp [itemDue, hopen]
    rcases ih h hplaced.2 (.fresh hitem) (around_open hat hopen hplaced.1 hpre) with
      ⟨before'?, u', htokens, hat', hplaced'⟩
    exact ⟨before'?, u', by simpa using htokens, hat', hplaced'⟩
  | case4 slot t ts hopen hcomma =>
    -- A comma or, further down, a closing token outside of brackets ends the expression.
    intro before? pre u hplaced hat hpre
    cases h
    cases hpre
    exact ⟨before?, u, rfl, hat, hplaced⟩
  | case5 slot t ts hopen hcomma f fs ih =>
    -- A comma ends an item.
    intro before? pre u hplaced hat hpre
    rcases bind_eq_ok_iff.1 h with ⟨n, hfinish, h⟩
    rw [placed, Bool.and_eq_true] at hplaced
    have hitem : itemDue (some t) = true := by
      simp [itemDue, hcomma]
    rcases ih n h hplaced.2 (.fresh hitem) (around_comma hat hcomma hplaced.1 hpre hfinish) with
      ⟨before'?, u', htokens, hat', hplaced'⟩
    exact ⟨before'?, u', by simpa using htokens, hat', hplaced'⟩
  | case6 slot t ts hopen hcomma hclose =>
    intro before? pre u hplaced hat hpre
    cases h
    cases hpre
    exact ⟨before?, u, rfl, hat, hplaced⟩
  | case7 slot t ts hopen hcomma hclose f fs ih =>
    -- A bracket closes.
    intro before? pre u hplaced hat hpre
    rcases bind_eq_ok_iff.1 h with ⟨items, hitems, h⟩
    rw [placed, Bool.and_eq_true] at hplaced
    split at h
    · next hcloser =>
      rcases around_close hat hcloser hplaced.1 hpre hitems with ⟨pre', u₁, htokens₁, hpre', hat₁⟩
      rcases ih items h hplaced.2 hat₁ hpre' with ⟨before'?, u', htokens, hat', hplaced'⟩
      refine ⟨before'?, u', ?_, hat', hplaced'⟩
      rw [htokens, ← List.append_assoc, htokens₁]
      simp
    · cases h
  | case8 slot frames t ts hopen hcomma hclose ih =>
    intro before? pre u hplaced hat hpre
    rcases bind_eq_ok_iff.1 h with ⟨next, hread, h⟩
    rw [placed, Bool.and_eq_true] at hplaced
    have hplain : IsPlain t.kind := ⟨by simpa using hopen, hcomma, by simpa using hclose⟩
    rcases ih next h hplaced.2 (at_read hat hplain hplaced.1 hread) hpre with
      ⟨before'?, u', htokens, hat', hplaced'⟩
    exact ⟨before'?, u', by simpa using htokens, hat', hplaced'⟩

/-! ### A single expression -/

/-- A comma or a closing token only fits where an expression may end. -/
theorem end_of_fits {before? : Option Token} {c : Token}
    (hc : c.kind = .comma ∨ c.kind.closesList = true) (hfits : fits before? c = true) :
    operandDue before? = false ∨ itemDue before? = true := by
  simp only [fits] at hfits
  generalize c.kind = kind at hc hfits
  cases kind <;> simp [TokenKind.closesList] at hc hfits ⊢ <;> simp [hfits]

/-- What is read as one expression with nothing before it is an expression of the grammar. -/
theorem expr_of_parseExpression {ts rest : List Token} {n : Node}
    (h : parseExpression ts = (.ok (some n), rest)) (hplaced : placed none ts = true) :
    ∃ u, Expr u n ∧ (ts = u ++ rest ∨ ∃ c, c.kind = .comma ∧ ts = u ++ c :: rest) := by
  rcases exists_scan_of_parseExpression h with ⟨slot, unread, place, hscan, hfinish, hunread⟩
  rcases at_scan hscan hplaced (.fresh rfl) .nil with ⟨before?, u, htokens, hat, hplaced'⟩
  rw [List.nil_append] at htokens
  have hend : operandDue before? = false ∨ itemDue before? = true := by
    have hends := endsExpression_of_scan hscan
    cases unread with
    | nil => simpa [placed] using hplaced'
    | cons c cs =>
      rw [placed, Bool.and_eq_true] at hplaced'
      exact end_of_fits hends hplaced'.1
  refine ⟨u, expr_of_at hat hend hfinish, ?_⟩
  rcases hunread with rfl | ⟨c, hc, rfl⟩
  · exact .inl htokens.symm
  · exact .inr ⟨c, hc, htokens.symm⟩

/-- Only from no tokens are no expressions read. -/
theorem eq_nil_of_parseParameters {ts : List Token} (h : parseParameters ts = .ok ([], [])) :
    ts = [] := by
  rw [parseParameters] at h
  split at h
  · cases h
  · next rest hread =>
    cases h
    exact (eq_of_parseExpression_none hread).1.symm
  · rcases bind_eq_ok_iff.1 h with ⟨⟨nodes, rest⟩, _, h⟩
    cases h

/-- An accepted list of tokens that are placed is derivable, and the tree is the one of its
derivation. -/
theorem single_of_placed {ts : List Token} {n : Node} (h : parseSingleExpression ts = .ok n)
    (hplaced : placed none ts = true) : Single ts n := by
  rw [parseSingleExpression] at h
  rcases bind_eq_ok_iff.1 h with ⟨nodes, hnodes, h⟩
  rw [parseParameterList] at hnodes
  rcases bind_eq_ok_iff.1 hnodes with ⟨⟨nodes', rest⟩, hparameters, hnodes⟩
  rcases bind_eq_ok_iff.1 hnodes with ⟨_, hend, hnodes⟩
  cases hnodes
  obtain rfl : rest = [] := by
    cases rest with
    | nil => rfl
    | cons t ts => cases hend
  rw [parseParameters] at hparameters
  split at hparameters
  · cases hparameters
  · cases hparameters
    cases h
  · next n' rest' hread =>
    rcases bind_eq_ok_iff.1 hparameters with ⟨⟨others, rest''⟩, hothers, hparameters⟩
    cases hparameters
    -- One expression only: what is read behind it is empty, so no token is left for it.
    obtain rfl : others = [] := by
      cases others with
      | nil => rfl
      | cons other others => cases h
    cases h
    obtain rfl := eq_nil_of_parseParameters hothers
    rcases expr_of_parseExpression hread hplaced with ⟨u, hexpr, hts | ⟨c, hc, hts⟩⟩
    · rw [hts, List.append_nil]
      exact .bare hexpr
    · rw [hts]
      exact .comma hexpr hc

/-! ## Derivations are placed -/

/-- Wherever an operand is due, the tokens are placed, and they leave none due behind them. -/
def Places (ts : List Token) : Prop :=
  ∀ (before? : Option Token) (rest : List Token), operandDue before? = true →
    (∀ before'? : Option Token, operandDue before'? = false → placed before'? rest = true) →
    placed before? (ts ++ rest) = true

/-- Whether the token may stand behind an operand. -/
def TokenKind.mayFollow (kind : TokenKind) : Bool :=
  !(kind.isValue || kind = .openParen || kind = .not || opensFrame kind)

section

variable {before? : Option Token} {t : Token}

/-- Where no operand is due, there may stand what follows one; where one is due, there may stand a
value, a sign or what opens. -/
theorem fits_of_mayFollow (ht : t.kind.mayFollow = true) (hdue : operandDue before? = false) :
    fits before? t = true := by
  simp only [fits, hdue]
  generalize t.kind = kind at ht
  cases kind <;> first | rfl | cases ht

theorem fits_of_isValue (ht : t.kind.isValue = true) (hdue : operandDue before? = true) :
    fits before? t = true := by
  simp only [fits, hdue]
  generalize t.kind = kind at ht
  cases kind <;> first | rfl | cases ht

theorem fits_of_monadic? {op : Op} {l : Nat} (ht : t.kind.monadic? = some (op, l))
    (hdue : operandDue before? = true) : fits before? t = true := by
  simp only [fits, hdue]
  generalize t.kind = kind at ht
  cases kind <;> first | rfl | cases ht

theorem fits_of_opensFrame (ht : opensFrame t.kind = true) (hdue : operandDue before? = true) :
    fits before? t = true := by
  simp only [fits, hdue]
  generalize t.kind = kind at ht
  cases kind <;> first | rfl | cases ht

/-- An operator of two operands follows an operand. -/
theorem mayFollow_of_dyadic? {op : Op} {l : Nat} (ht : t.kind.dyadic? = some (op, l)) :
    t.kind.mayFollow = true := by
  generalize t.kind = kind at ht
  cases kind <;> first | rfl | cases ht

/-- A token between two phrases is placed if it may follow the first and leaves the second due. -/
theorem Places.between {ls rs : List Token} (hls : Places ls) (hfollow : t.kind.mayFollow = true)
    (hleaves : t.kind.leavesDue = true) (hrs : Places rs) : Places (ls ++ t :: rs) := by
  intro before? rest hdue hrest
  rw [List.append_assoc]
  refine hls before? _ hdue fun last hlast => ?_
  rw [List.cons_append, placed, Bool.and_eq_true]
  exact ⟨fits_of_mayFollow hfollow hlast, hrs (some t) rest hleaves hrest⟩

/-- A token that fits where an operand is due, and leaves one due, may stand before well-placed
tokens. -/
theorem Places.behind {ts : List Token} (hfits : ∀ before?, operandDue before? = true →
    fits before? t = true) (hleaves : t.kind.leavesDue = true) (hts : Places ts) :
    Places (t :: ts) := by
  intro before? rest hdue hrest
  rw [List.cons_append, placed, Bool.and_eq_true]
  exact ⟨hfits before? hdue, hts (some t) rest hleaves hrest⟩

/-- Wherever an item may stand, the tokens are placed, and a closing token may stand behind them. -/
def PlacesItems (ts : List Token) : Prop :=
  ∀ (before? : Option Token) (rest : List Token), itemDue before? = true →
    (∀ before'? : Option Token, operandDue before'? = false ∨ itemDue before'? = true →
      placed before'? rest = true) →
    placed before? (ts ++ rest) = true

/-- Well-placed items in a bracket are well placed. -/
theorem PlacesItems.bracket {tag ts : List Token} {text : String} {o c : Token}
    (htag : Tag tag text) (ho : opensFrame o.kind = true) (hts : PlacesItems ts)
    (hc : c.kind = .closeBracket ∨ c.kind = .closeBrace) : Places (tag ++ o :: (ts ++ [c])) := by
  intro before? rest hdue hrest
  have hitem : itemDue (some o) = true := by simp [itemDue, ho]
  -- Behind its opening bracket a list starts anew; behind the closing one the operand is there.
  have hinside : placed (some o) (ts ++ c :: rest) = true := by
    refine hts (some o) (c :: rest) hitem fun before'? hbefore => ?_
    have hleaves : c.kind.leavesDue = false := by
      rcases hc with hc | hc <;> rw [hc] <;> rfl
    have hfits : fits before'? c = true := by
      rcases hc with hc | hc <;> simpa [fits, hc] using hbefore
    rw [placed, hfits, hrest (some c) hleaves]
    rfl
  have hassoc : tag ++ o :: (ts ++ [c]) ++ rest = tag ++ o :: (ts ++ c :: rest) := by simp
  rw [hassoc]
  cases htag with
  | none => rw [List.nil_append, placed, fits_of_opensFrame ho hdue, hinside, Bool.and_self]
  -- An identifier is the one value behind which a bracket fits.
  | @ident i hi =>
    have hvalue : i.kind.isValue = true := by
      rw [hi]
      rfl
    have hkind : o.kind = .openBracket ∨ o.kind = .openBrace := by simpa [opensFrame] using ho
    have hfits : fits (some i) o = true := by
      rcases hkind with hkind | hkind <;> simp [fits, hkind, hi]
    rw [List.singleton_append, placed, placed, fits_of_isValue hvalue hdue, hfits, hinside]
    rfl

/-- Items are well placed one after the other. -/
theorem PlacesItems.cons {ts rest : List Token} (hts : Places ts) (ht : t.kind = .comma)
    (hrest : PlacesItems rest) : PlacesItems (ts ++ t :: rest) := by
  intro before? behind hitem hbehind
  have hassoc : ts ++ t :: rest ++ behind = ts ++ t :: (rest ++ behind) := by simp
  have hitem' : itemDue (some t) = true := by simp [itemDue, ht]
  rw [hassoc]
  refine hts before? _ (operandDue_of_itemDue hitem) fun last hlast => ?_
  rw [placed, fits_of_mayFollow (by rw [ht]; rfl) hlast, hrest (some t) behind hitem' hbehind]
  rfl

end

/-- The tokens of an expression are placed. -/
theorem places_expr {ts : List Token} {n : Node} (h : Expr ts n) : Places ts := by
  -- Each phrase begins where an operand is due and ends where none is.
  induction h using Expr.rec
    (motive_2 := fun ts _ _ => Places ts)
    (motive_3 := fun _ _ ts _ _ => Places ts)
    (motive_4 := fun _ ts _ _ => Places ts)
    (motive_5 := fun ts _ _ => Places ts)
    (motive_6 := fun ts _ _ => PlacesItems ts)
  with
  | tern _ ih => exact ih
  | assign _ ht _ hleft hright => exact hleft.between (by rw [ht]; rfl) (by rw [ht]; rfl) hright
  | bin _ ih => exact ih
  | choice _ hq _ hc _ hcondition hyes hno =>
    exact Places.between hcondition (by rw [hq]; rfl) (by rw [hq]; rfl)
      (Places.between hyes (by rw [hc]; rfl) (by rw [hc]; rfl) hno)
  | operand _ ih => exact ih
  | dyadic _ ht hle _ hleft hright =>
    exact Places.between hleft (mayFollow_of_dyadic? ht)
      (leavesDue_of_startsOperand (startsOperand_of_dyadic? ht)) hright
  | atom _ ih => exact ih
  | monadic ht hlongest _ ih =>
    exact Places.behind (fun before? => fits_of_monadic? ht)
      (leavesDue_of_startsOperand (startsOperand_of_monadic? ht)) ih
  | @leaf t n ht =>
    intro before? rest hdue hrest
    have hvalue := isValue_of_leaf? ht
    rw [List.singleton_append, placed, fits_of_isValue hvalue hdue,
      hrest (some t) (not_leavesDue_of_isValue hvalue)]
    rfl
  | @paren ts o c n ho _ hc ih =>
    intro before? rest hdue hrest
    have hfits : fits before? o = true := by simpa [fits, ho] using hdue
    have hassoc : o :: (ts ++ [c]) ++ rest = o :: (ts ++ c :: rest) := by simp
    have hinner : operandDue (some o) = true := by simp [operandDue, ho, TokenKind.leavesDue]
    have hlast : operandDue (some c) = false := by
      simp [operandDue, hc, TokenKind.leavesDue, TokenKind.dyadic?, TokenKind.monadic?]
    rw [hassoc, placed, hfits, Bool.true_and]
    refine ih (some o) (c :: rest) hinner fun before'? hbefore => ?_
    rw [placed, fits_of_mayFollow (by rw [hc]; rfl) hbefore, hrest (some c) hlast]
    rfl
  | list htag ho _ hc ih => exact PlacesItems.bracket htag (by rw [ho]; rfl) ih (.inl hc)
  | object htag ho _ hc ih => exact PlacesItems.bracket htag (by rw [ho]; rfl) ih (.inr hc)
  | nil =>
    intro before? rest hitem hrest
    exact hrest before? (.inr hitem)
  | last _ ih =>
    intro before? rest hitem hrest
    exact ih before? rest (operandDue_of_itemDue hitem) fun _ hbefore => hrest _ (.inl hbefore)
  | cons _ ht _ ih hrest => exact PlacesItems.cons ih ht hrest

/-- The tokens of a derivation are placed. -/
theorem placed_of_single {ts : List Token} {n : Node} (h : Single ts n) :
    placed none ts = true := by
  cases h with
  | bare h =>
    have hplaced := places_expr h none [] rfl fun before'? hbefore => by
      simp [placed, hbefore]
    simpa using hplaced
  | @comma ts t n h ht =>
    refine places_expr h none [t] rfl fun last hlast => ?_
    rw [placed, fits_of_mayFollow (by rw [ht]; rfl) hlast]
    simp [placed, itemDue, ht]

/-- Of the lists of tokens that the parser accepts as one expression, exactly those are derivable in
which each token stands where the grammar has room for it; the tree is then the one of the
derivation. -/
theorem single_iff_placed {ts : List Token} {n : Node} (h : parseSingleExpression ts = .ok n) :
    ((∃ n', Single ts n') ↔ placed none ts = true) ∧ (placed none ts = true → Single ts n) := by
  refine ⟨⟨?_, fun hplaced => ⟨n, single_of_placed h hplaced⟩⟩, single_of_placed h⟩
  rintro ⟨n', hn'⟩
  exact placed_of_single hn'

/-- `(a)` is placed, accepted and derivable. -/
theorem single_iff_placed_parens :
    let ts : List Token := [⟨.openParen, none, .origin⟩, ⟨.identifier, some "a", .origin⟩,
      ⟨.closeParen, none, .origin⟩]
    parseSingleExpression ts = .ok (.ident "a") ∧
      ((∃ n', Single ts n') ↔ placed none ts = true) ∧
      (placed none ts = true → Single ts (.ident "a")) ∧ placed none ts = true := by
  intro ts
  have hparse : parseSingleExpression ts = .ok (.ident "a") := parseSingleExpression_of_some rfl
  have hiff := single_iff_placed hparse
  exact ⟨hparse, hiff.1, hiff.2, by decide⟩

/-- `1 2 +` is accepted, as the sum of the two, but no derivation has these tokens. -/
theorem accepts_operands_on_one_side :
    let ts : List Token := [⟨.int, some "1", .origin⟩, ⟨.int, some "2", .origin⟩,
      ⟨.add, none, .origin⟩]
    parseSingleExpression ts = .ok (.apply .add [.int 1, .int 2]) ∧ ¬∃ n, Single ts n := by
  refine ⟨parseSingleExpression_of_some rfl, ?_⟩
  rintro ⟨n, hn⟩
  have hplaced := placed_of_single hn
  revert hplaced
  decide

end Edict
