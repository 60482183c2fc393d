import Edict.Proofs.Slots

namespace Edict

open Edict.Parser Grammar

/-! # What the waiting operators stand for

While an operand is due, what a slot holds is an expression of the grammar with a hole at its end:
each waiting operator comes with the phrase on its left, and each finished expression is such a
phrase (`ExprDue`, `TernDue`, `BinDue`).  The three say what may fill the hole.  Once an operand has
filled it, applying the operators that wait builds the phrase around the operand, one rule of the
grammar for each operator (`build_bin`, `build_expr`), and no operand comes from anywhere else.
-/

/-! ## Phrases with a hole at the end -/

mutual

/-- The tokens, with finished expressions and waiting operators to match, behind which an expression
is due. -/
inductive ExprDue : List Token → List Node → List Pending → Prop
  | start : ExprDue [] [] []
  | paren {k : Nat} {u : List Token} {nodes : List Node} {pending : List Pending} {o : Token}
      (h : BinDue k u nodes pending) (ho : o.kind = .openParen) :
      ExprDue (u ++ [o]) nodes (.paren o.span :: pending)
  | question {u cs : List Token} {nodes : List Node} {pending : List Pending} {q : Token}
      {condition : Node} (h : TernDue u nodes pending) (hcondition : Bin 1 0 cs condition)
      (hq : q.kind = .question) :
      ExprDue (u ++ (cs ++ [q])) (condition :: nodes) (.question q.span :: pending)

/-- The same where a ternary or something tighter is due. -/
inductive TernDue : List Token → List Node → List Pending → Prop
  | expr {u : List Token} {nodes : List Node} {pending : List Pending}
      (h : ExprDue u nodes pending) : TernDue u nodes pending
  | assign {u ls : List Token} {nodes : List Node} {pending : List Pending} {t : Token}
      {left : Node} (h : ExprDue u nodes pending) (hleft : Expr ls left)
      (ht : t.kind = .assign) :
      TernDue (u ++ (ls ++ [t])) (left :: nodes)
        (.operator (.left .assign 0) t.span :: pending)
  | otherwise {u cs ys : List Token} {nodes : List Node} {pending : List Pending} {q c : Token}
      {condition yes : Node} (h : TernDue u nodes pending) (hcondition : Bin 1 0 cs condition)
      (hq : q.kind = .question) (hyes : Expr ys yes) (hc : c.kind = .colon) :
      TernDue (u ++ (cs ++ q :: (ys ++ [c]))) (yes :: condition :: nodes)
        (.otherwise q.span :: pending)

/-- The same where operands with operators of a level or tighter between them are due. -/
inductive BinDue : Nat → List Token → List Node → List Pending → Prop
  | tern {u : List Token} {nodes : List Node} {pending : List Pending}
      (h : TernDue u nodes pending) : BinDue 1 u nodes pending
  | dyadic {k l : Nat} {u ls : List Token} {nodes : List Node} {pending : List Pending} {t : Token}
      {op : Op} {left : Node} (h : BinDue k u nodes pending) (hk : k ≤ l) (hleft : Bin l l ls left)
      (ht : t.kind.dyadic? = some (op, l)) :
      BinDue (l + 1) (u ++ (ls ++ [t])) (left :: nodes) (.operator (.left op l) t.span :: pending)
  | monadic {k l : Nat} {u : List Token} {nodes : List Node} {pending : List Pending} {t : Token}
      {op : Op} (h : BinDue k u nodes pending) (ht : t.kind.monadic? = some (op, l)) :
      BinDue (l + 1) (u ++ [t]) nodes (.operator (.left op l) t.span :: pending)

end

/-! ## Filling the hole -/

variable {u ts : List Token} {nodes : List Node} {pending : List Pending} {n : Node}

/-- What is an expression at a level is one at all lower levels. -/
theorem Grammar.Bin.mono {level level' next : Nat} (h : Bin level next ts n)
    (hle : level' ≤ level) : Bin level' next ts n := by
  cases h with
  | operand h => exact .operand h
  | dyadic hleft ht hlevel hright => exact .dyadic hleft ht (by omega) hright

theorem Grammar.Bin.of_atom {level next : Nat} (h : Atom ts n) : Bin level next ts n :=
  .operand (.atom h)

/-- Where an expression is due, anything that waits is looser than it. -/
theorem loose_of_exprDue (h : ExprDue u nodes pending) : Loose 0 pending := by
  cases h with
  | start => trivial
  | paren h ho => exact loose_cons_of_none rfl
  | question h hcondition hq => exact loose_cons_of_none rfl

theorem loose_of_ternDue (h : TernDue u nodes pending) : Loose 1 pending := by
  cases h with
  | expr h => exact (loose_of_exprDue h).mono (Nat.zero_le 1)
  | assign h hleft ht => exact loose_cons rfl Nat.zero_lt_one
  | otherwise h hcondition hq hyes hc => exact loose_cons rfl Nat.zero_lt_one

/-- What comes of applying the operators that bind at `stop` or tighter: the tokens `v` are a
beginning with a hole, where only looser operators wait, and one phrase that fills it. -/
inductive BinBuilt {α : Type} (f : List Node → List Pending → Except ParseError α) (stop next : Nat)
    (v : List Token) (outcome : Except ParseError α) : Prop
  | mk {k : Nat} {u ts : List Token} {nodes : List Node} {pending : List Pending} {n : Node}
      (htokens : u ++ ts = v) (hdue : BinDue k u nodes pending) (hk : k ≤ stop)
      (hloose : Loose stop pending) (hn : Bin stop next ts n)
      (houtcome : outcome = f (n :: nodes) pending)

/-- Applying all that waits down to a level builds the operation of that level, around what is read.
-/
theorem build_bin {α : Type} {f : List Node → List Pending → Except ParseError α}
    {stop next k level : Nat} (hf : AppliesDownTo stop f) (hstop : 1 ≤ stop) (hnext : next ≤ stop)
    (h : BinDue k u nodes pending) (hn : Bin level next ts n) (hk : k ≤ level)
    (hlevel : stop ≤ level) : BinBuilt f stop next (u ++ ts) (f (n :: nodes) pending) := by
  -- Each operator that is applied leaves one less waiting, and what fills the hole grows by the
  -- phrase of that operator, whose level becomes the new `level`.
  induction pending generalizing k level u ts nodes n with
  | nil =>
    cases h with
    | tern h => exact .mk rfl (.tern h) hstop trivial (hn.mono hlevel) rfl
  | cons p pending ih =>
    cases h with
    | tern h =>
      exact .mk rfl (.tern h) hstop ((loose_of_ternDue h).mono hstop) (hn.mono hlevel) rfl
    | @dyadic k l u ls nodes _ t op left h hkl hleft ht =>
      by_cases hle : stop ≤ l
      · have hwhole : Bin l next (ls ++ t :: ts) (.apply op [left, n]) :=
          .dyadic hleft ht (Nat.le_refl l) (hn.mono hk)
        have hreduce := reduce_dyadic (l := l) (arity_of_dyadic? ht) t.span left n nodes
        rw [hf.step rfl hle hreduce]
        simpa using ih h hwhole hkl hle
      · -- It is looser than `stop`, so nothing more is applied.
        have hloose : Loose stop (.operator (.left op l) t.span :: pending) :=
          loose_cons rfl (Nat.lt_of_not_le hle)
        exact .mk rfl (.dyadic h hkl hleft ht) (by omega) hloose (hn.mono hlevel) rfl
    | @monadic k l u nodes _ t op h ht =>
      by_cases hle : stop ≤ l
      · -- With its operand it is itself an operand, which serves as a phrase of any level.
        have hwhole : Bin (max k stop) next (t :: ts) (.apply op [n]) :=
          .operand (.monadic ht (by omega) (hn.mono hk))
        have hreduce := reduce_monadic (l := l) (arity_of_monadic? ht) t.span n nodes
        rw [hf.step rfl hle hreduce]
        simpa using ih h hwhole (by omega) (by omega)
      · have hloose : Loose stop (.operator (.left op l) t.span :: pending) :=
          loose_cons rfl (Nat.lt_of_not_le hle)
        exact .mk rfl (.monadic h ht) (by omega) hloose (hn.mono hlevel) rfl

/-- Where an operand of a loose operator is due, a choice is due. -/
theorem ternDue_of_binDue {k : Nat} (h : BinDue k u nodes pending) (hk : k ≤ 1) :
    TernDue u nodes pending := by
  cases h with
  | tern h => exact h
  | dyadic h hk' hleft ht =>
    have hl := level_pos_of_dyadic? ht
    omega
  | monadic h ht =>
    have hl := level_pos_of_monadic? ht
    omega

/-- What comes of applying all operators down to the innermost parenthesis or open question: one
expression of all that stands behind it. -/
inductive ExprBuilt {α : Type} (f : List Node → List Pending → Except ParseError α)
    (v : List Token) (outcome : Except ParseError α) : Prop
  | mk {u ts : List Token} {nodes : List Node} {pending : List Pending} {n : Node}
      (htokens : u ++ ts = v) (hdue : ExprDue u nodes pending) (hn : Expr ts n)
      (houtcome : outcome = f (n :: nodes) pending)

/-- Applying all that waits builds an expression around a choice. -/
theorem build_tern {α : Type} {f : List Node → List Pending → Except ParseError α}
    (hf : AppliesDownTo 0 f) (h : TernDue u nodes pending) (hn : Tern ts n) :
    ExprBuilt f (u ++ ts) (f (n :: nodes) pending) := by
  -- A ternary goes on to be the right side of what is older; an assignment is the last one applied,
  -- as all that stands on its left is an expression already.
  induction pending generalizing u ts nodes n with
  | nil =>
    cases h with
    | expr h => exact .mk rfl h (.tern hn) rfl
  | cons p pending ih =>
    cases h with
    | expr h => exact .mk rfl h (.tern hn) rfl
    | @assign u ls nodes _ t left h hleft ht =>
      have hreduce := reduce_dyadic (l := 0) (rfl : Op.assign.arity = 2) t.span left n nodes
      rw [hf.step rfl (Nat.zero_le _) hreduce]
      exact .mk (by simp) h (.assign hleft ht hn) rfl
    | @otherwise u cs ys nodes _ q c condition yes h hcondition hq hyes hc =>
      have hwhole : Tern (cs ++ q :: (ys ++ c :: ts)) (.apply .ternary [condition, yes, n]) :=
        .choice hcondition hq hyes hc hn
      have hreduce := reduce_otherwise q.span condition yes n nodes
      rw [hf.step rfl (Nat.zero_le _) hreduce]
      simpa using ih h hwhole

/-- Applying all that waits builds an expression around an atom. -/
theorem build_expr {α : Type} {f : List Node → List Pending → Except ParseError α} {k : Nat}
    (hf : AppliesDownTo 0 f) (h : BinDue k u nodes pending) (hn : Atom ts n) :
    ExprBuilt f (u ++ ts) (f (n :: nodes) pending) := by
  have hphrase : Bin (max k 1) 0 ts n := .of_atom hn
  rcases build_bin (hf.mono (Nat.zero_le 1)) (Nat.le_refl 1) (Nat.zero_le 1) h hphrase (by omega)
    (by omega) with ⟨htokens, hdue, hk, -, hbin, houtcome⟩
  rw [← htokens, houtcome]
  exact build_tern hf (ternDue_of_binDue hdue hk) (.bin hbin)

/-! ## Tokens behind an operand -/

section

variable {k : Nat} {t : Token} {nodes' : List Node} {pending' : List Pending}

/-- Behind an operator, its right operand is due. -/
theorem binDue_of_dyadic {op : Op} {l : Nat} (h : BinDue k u nodes pending) (hn : Atom ts n)
    (ht : t.kind.dyadic? = some (op, l))
    (hreduce : reduceYielding (.left op l) (n :: nodes) pending = .ok (nodes', pending')) :
    BinDue (l + 1) (u ++ ts ++ [t]) nodes' (.operator (.left op l) t.span :: pending') := by
  have hl := level_pos_of_dyadic? ht
  have hf : AppliesDownTo l (reduceYielding (.left op l)) :=
    appliesDownTo_reduceYielding fun b hb => (yieldsTo_left op l b).mpr hb
  have hphrase : Bin (max k l) l ts n := .of_atom hn
  rcases build_bin hf hl (Nat.le_refl l) h hphrase (by omega) (by omega) with
    ⟨htokens, hdue, hk, hloose, hleft, houtcome⟩
  rw [houtcome, reduceYielding_of_loose hloose fun b => (yieldsTo_left op l b).mp] at hreduce
  cases hreduce
  rw [← htokens, List.append_assoc]
  exact .dyadic hdue hk hleft ht

/-- Behind an assignment, its right side is due; behind a question, an expression; behind its colon,
a choice. -/
theorem ternDue_of_assign (h : BinDue k u nodes pending) (hn : Atom ts n) (ht : t.kind = .assign)
    (hreduce : reduceYielding (.left .assign 0) (n :: nodes) pending = .ok (nodes', pending')) :
    TernDue (u ++ ts ++ [t]) nodes' (.operator (.left .assign 0) t.span :: pending') := by
  have hf : AppliesDownTo 0 (reduceYielding (.left .assign 0)) :=
    appliesDownTo_reduceYielding fun b hb => (yieldsTo_left .assign 0 b).mpr hb
  rcases build_expr hf h hn with ⟨htokens, hdue, hleft, houtcome⟩
  have hstays := reduceYielding_of_loose (loose_of_exprDue hdue)
    fun b => (yieldsTo_left .assign 0 b).mp
  rw [houtcome, hstays] at hreduce
  cases hreduce
  rw [← htokens, List.append_assoc]
  exact .assign hdue hleft ht

theorem exprDue_of_question (h : BinDue k u nodes pending) (hn : Atom ts n)
    (ht : t.kind = .question)
    (hreduce : reduceYielding .ternary (n :: nodes) pending = .ok (nodes', pending')) :
    ExprDue (u ++ ts ++ [t]) nodes' (.question t.span :: pending') := by
  have hf : AppliesDownTo 1 (reduceYielding .ternary) :=
    appliesDownTo_reduceYielding fun b hb => (yieldsTo_ternary b).mpr hb
  have hphrase : Bin (max k 1) 0 ts n := .of_atom hn
  rcases build_bin hf (Nat.le_refl 1) (Nat.zero_le 1) h hphrase (by omega) (by omega) with
    ⟨htokens, hdue, hk, hloose, hleft, houtcome⟩
  rw [houtcome, reduceYielding_of_loose hloose fun b => (yieldsTo_ternary b).mp] at hreduce
  cases hreduce
  rw [← htokens, List.append_assoc]
  exact .question (ternDue_of_binDue hdue hk) hleft ht

theorem ternDue_of_colon (h : BinDue k u nodes pending) (hn : Atom ts n) (ht : t.kind = .colon)
    (hreduce : reduceToQuestion t.span (n :: nodes) pending = .ok (nodes', pending')) :
    TernDue (u ++ ts ++ [t]) nodes' pending' := by
  rcases build_expr (appliesDownTo_reduceToQuestion t.span) h hn with
    @⟨_, ys, _, _, _, htokens, hdue, hyes, houtcome⟩
  rw [houtcome] at hreduce
  -- A `:` is only taken where the innermost thing that waits is an open question.
  cases hdue with
  | start => cases hreduce
  | paren h ho => cases hreduce
  | @question u' cs _ _ q condition h hcondition hq =>
    cases hreduce
    have htokens' : u ++ ts ++ [t] = u' ++ (cs ++ q :: (ys ++ [t])) := by
      rw [← htokens]
      simp
    rw [htokens']
    exact .otherwise h hcondition hq hyes ht

/-- A closing parenthesis makes an operand of what stands in the parentheses. -/
theorem exists_atom_of_closeParen (h : BinDue k u nodes pending) (hn : Atom ts n)
    (ht : t.kind = .closeParen)
    (hreduce : reduceToParen t.span (n :: nodes) pending = .ok (nodes', pending')) :
    ∃ k' u' ts' nodes'' n', nodes' = n' :: nodes'' ∧ u' ++ (ts' ++ [t]) = u ++ ts ++ [t] ∧
      BinDue k' u' nodes'' pending' ∧ Atom (ts' ++ [t]) n' := by
  rcases build_expr (appliesDownTo_reduceToParen t.span) h hn with
    @⟨_, inner, nodes₁, _, n₁, htokens, hdue, hinner, houtcome⟩
  rw [houtcome] at hreduce
  cases hdue with
  | start => cases hreduce
  | question h hcondition hq => cases hreduce
  | @paren k' u' _ _ o h ho =>
    cases hreduce
    refine ⟨k', u', o :: inner, nodes₁, n₁, rfl, ?_, h, .paren ho hinner ht⟩
    rw [← htokens]
    simp

/-- What is finished without complaint is an expression. -/
theorem expr_of_finish {last? : Option Token} {place : Span} {node : Node}
    (h : BinDue k u nodes pending) (hn : Atom ts n)
    (hfinish : (⟨n :: nodes, pending, last?⟩ : Slot).finish place = .ok node) :
    Expr (u ++ ts) node := by
  rcases build_expr appliesDownTo_reduceAll h hn with ⟨htokens, hdue, hexpr, houtcome⟩
  simp only [Slot.finish, houtcome] at hfinish
  cases hdue with
  | start =>
    cases hfinish
    rw [← htokens]
    exact hexpr
  | paren h ho => cases hfinish
  | question h hcondition hq => cases hfinish

end

end Edict
