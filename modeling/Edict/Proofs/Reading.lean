import Edict.Proofs.Slots

namespace Edict

open Edict.Parser Grammar

/-! # Every expression of the grammar is read as it stands

Reading a phrase leaves its parts in the slot: finished expressions and waiting operators that make
the tree of the phrase as soon as they are applied (`Parts`).  What waits below is never touched,
because a phrase only ever stands behind looser operators (`Loose`), and what the phrase itself
leaves waiting is tight enough to give way to the operator that follows it (`Tighter`).  The
induction is on the derivation, with one rule for each way to go on behind a phrase.

Main statements:

* `reads_expr`: an expression is read from any slot where one may stand;
* `parseSingleExpression_of_single`: the parser finds the tree of every derivation.
-/

/-- All integer literals among the tokens fit 32 bits. -/
def IntegersFit (ts : List Token) : Prop :=
  ∀ t ∈ ts, t.kind = .int → (intLiteral? t.text).isSome = true

instance (ts : List Token) : Decidable (IntegersFit ts) :=
  inferInstanceAs (Decidable (∀ t ∈ ts, t.kind = .int → (intLiteral? t.text).isSome = true))

/-- Integers that fit in a text fit in each part of it. -/
theorem IntegersFit.left {ts ts' : List Token} (h : IntegersFit (ts ++ ts')) : IntegersFit ts :=
  fun t ht => h t (List.mem_append_left ts' ht)

theorem IntegersFit.right {ts ts' : List Token} (h : IntegersFit (ts ++ ts')) : IntegersFit ts' :=
  fun t ht => h t (List.mem_append_right ts ht)

theorem IntegersFit.tail {t : Token} {ts : List Token} (h : IntegersFit (t :: ts)) :
    IntegersFit ts :=
  fun t' ht => h t' (List.mem_cons_of_mem t ht)

/-! ## The parts of a phrase -/

/-- Finished expressions and waiting operators of the level `low` or tighter that make `n`. -/
structure Parts (low : Nat) (n : Node) (nodes : List Node) (pending : List Pending) : Prop where
  reduceAll_eq : ∀ outer, reduceAll (nodes ++ outer) pending = .ok (n :: outer)
  tighter : Tighter low pending

/-- Reading `ts` in `slot` puts the parts of `n` on top of what is there. -/
def Reads (low : Nat) (slot : Slot) (ts : List Token) (n : Node) : Prop :=
  ∃ nodes pending last, Parts low n nodes pending ∧ last.kind.startsOperand = false ∧
    ∀ stop frames rest, scan stop slot frames (ts ++ rest)
      = scan stop ⟨nodes ++ slot.nodes, pending ++ slot.pending, some last⟩ frames rest

namespace Reads

variable {low : Nat} {slot : Slot} {ts : List Token} {n : Node}

/-- What can be read among loose operators can be read among looser ones. -/
theorem mono {low' : Nat} (h : Reads low slot ts n) (hle : low' ≤ low) : Reads low' slot ts n := by
  rcases h with ⟨nodes, pending, last, hparts, hlast, hscan⟩
  exact ⟨nodes, pending, last, ⟨hparts.reduceAll_eq, hparts.tighter.mono hle⟩, hlast, hscan⟩

/-- A single finished expression is its only part. -/
theorem of_scan {last : Token} (hlast : last.kind.startsOperand = false)
    (hscan : ∀ stop frames rest, scan stop slot frames (ts ++ rest)
      = scan stop ⟨n :: slot.nodes, slot.pending, some last⟩ frames rest) :
    Reads low slot ts n :=
  ⟨[n], [], last, ⟨fun _ => rfl, by simp [Tighter]⟩, hlast, hscan⟩

/-! ### What may follow -/

/-- An operator behind a phrase makes one expression of its parts, if all of them and nothing below
give way to it. -/
theorem reduceYielding_parts {nodes : List Node} {pending : List Pending} {level : Nat}
    (incoming : Binding) (hparts : Parts low n nodes pending)
    (hyield : ∀ b : Binding, low ≤ b.level → incoming.yieldsTo b = true)
    (hloose : Loose level slot.pending)
    (hstay : ∀ b : Binding, incoming.yieldsTo b = true → level ≤ b.level) :
    reduceYielding incoming (nodes ++ slot.nodes) (pending ++ slot.pending)
      = .ok (n :: slot.nodes, slot.pending) := by
  have hf := appliesDownTo_reduceYielding hyield
  rw [hf.append hparts.tighter (hparts.reduceAll_eq slot.nodes)]
  exact reduceYielding_of_loose hloose hstay _

/-- An operator behind an expression finds it applied down to the level of the operator. -/
theorem then_dyadic {l : Nat} {op : Op} {t : Token} (h : Reads l slot ts n)
    (hloose : Loose l slot.pending) (ht : t.kind.dyadic? = some (op, l)) (stop : Span)
    (frames : List Frame) (rest : List Token) :
    scan stop slot frames (ts ++ t :: rest)
      = scan stop ⟨n :: slot.nodes, .operator (.left op l) t.span :: slot.pending, some t⟩
          frames rest := by
  rcases h with ⟨nodes, pending, last, hparts, hlast, hscan⟩
  have hreduce := reduceYielding_parts (.left op l) hparts (by simp) hloose (by simp)
  -- Behind a phrase, `+` and `-` are no signs.
  have hdue : (⟨nodes ++ slot.nodes, pending ++ slot.pending, some last⟩ : Slot).expectsOperand
      = false := hlast
  rw [hscan]
  refine scan_of_read (isPlain_of_dyadic? ht) ?_ _ _ _
  rw [read_of_dyadic? ht hdue]
  simp only [hreduce]
  rfl

/-- An assignment applies all that it does not give way to. -/
theorem then_assign {t : Token} (h : Reads 0 slot ts n) (hloose : Loose 0 slot.pending)
    (ht : t.kind = .assign) (stop : Span) (frames : List Frame) (rest : List Token) :
    scan stop slot frames (ts ++ t :: rest)
      = scan stop ⟨n :: slot.nodes, .operator (.left .assign 0) t.span :: slot.pending, some t⟩
          frames rest := by
  rcases h with ⟨nodes, pending, last, hparts, -, hscan⟩
  have hreduce := reduceYielding_parts (.left .assign 0) hparts (by simp) hloose (by simp)
  rw [hscan]
  refine scan_of_read (by rw [ht]; decide) ?_ _ _ _
  refine (read_of_assign ht).trans ?_
  simp only [hreduce]
  rfl

/-- A `?` takes no part in what binds as loosely as itself. -/
theorem then_question {t : Token} (h : Reads 1 slot ts n) (hloose : Loose 1 slot.pending)
    (ht : t.kind = .question) (stop : Span) (frames : List Frame) (rest : List Token) :
    scan stop slot frames (ts ++ t :: rest)
      = scan stop ⟨n :: slot.nodes, .question t.span :: slot.pending, some t⟩ frames rest := by
  rcases h with ⟨nodes, pending, last, hparts, -, hscan⟩
  have hreduce := reduceYielding_parts .ternary hparts (by simp) hloose (by simp)
  rw [hscan]
  refine scan_of_read (by rw [ht]; decide) ?_ _ _ _
  simp only [Slot.read, ht, hreduce]
  rfl

/-- A colon settles the question that waits. -/
theorem then_colon {t : Token} {span : Span} {outer : List Pending} (h : Reads low slot ts n)
    (hpending : slot.pending = .question span :: outer) (ht : t.kind = .colon) (stop : Span)
    (frames : List Frame) (rest : List Token) :
    scan stop slot frames (ts ++ t :: rest)
      = scan stop ⟨n :: slot.nodes, .otherwise span :: outer, some t⟩ frames rest := by
  rcases h with ⟨nodes, pending, last, hparts, -, hscan⟩
  have hf : AppliesDownTo low (reduceToQuestion t.span) :=
    (appliesDownTo_reduceToQuestion t.span).mono (Nat.zero_le low)
  have hreduce := hf.append hparts.tighter (hparts.reduceAll_eq slot.nodes)
    (.question span :: outer)
  rw [hscan, hpending]
  refine scan_of_read (by rw [ht]; decide) ?_ _ _ _
  simp only [Slot.read, ht, hreduce]
  rfl

/-- A parenthesis that closes takes the one away that waits. -/
theorem then_closeParen {t : Token} {span : Span} {outer : List Pending}
    (h : Reads low slot ts n) (hpending : slot.pending = .paren span :: outer)
    (ht : t.kind = .closeParen) (stop : Span) (frames : List Frame) (rest : List Token) :
    scan stop slot frames (ts ++ t :: rest)
      = scan stop ⟨n :: slot.nodes, outer, some t⟩ frames rest := by
  rcases h with ⟨nodes, pending, last, hparts, -, hscan⟩
  have hf : AppliesDownTo low (reduceToParen t.span) :=
    (appliesDownTo_reduceToParen t.span).mono (Nat.zero_le low)
  have hreduce := hf.append hparts.tighter (hparts.reduceAll_eq slot.nodes)
    (.paren span :: outer)
  rw [hscan, hpending]
  refine scan_of_read (by rw [ht]; decide) ?_ _ _ _
  simp only [Slot.read, ht, hreduce]
  rfl

/-- Behind a phrase that is alone in its slot, the slot is finished with the tree of the phrase. -/
theorem finish (h : Reads low .empty ts n) :
    ∃ slot', slot'.isStarted = true ∧ (∀ place, slot'.finish place = .ok n) ∧
      ∀ stop frames rest, scan stop .empty frames (ts ++ rest) = scan stop slot' frames rest := by
  rcases h with ⟨nodes, pending, last, hparts, -, hscan⟩
  refine ⟨_, ?_, ?_, hscan⟩
  · rfl
  · intro place
    have hreduce := hparts.reduceAll_eq []
    simp only [Slot.finish, Slot.empty, List.append_nil] at hreduce ⊢
    rw [hreduce]
    rfl

/-! ### What may stand before -/

/-- An operator and its right operand are parts of one phrase, beside what the operator takes on its
left. -/
theorem behind {nodes : List Node} {p : Pending} {b : Binding} {ls rs : List Token} {t : Token}
    {right : Node} (hb : p.binding? = some b) (hlow : low ≤ b.level)
    (hleft : ∀ stop frames rest, scan stop slot frames (ls ++ t :: rest)
      = scan stop ⟨nodes ++ slot.nodes, p :: slot.pending, some t⟩ frames rest)
    (hright : Reads low ⟨nodes ++ slot.nodes, p :: slot.pending, some t⟩ rs right)
    (hreduce : ∀ outer, reduce (right :: (nodes ++ outer)) p = .ok (n :: outer)) :
    Reads low slot (ls ++ t :: rs) n := by
  rcases hright with ⟨nodes', pending', last, hparts, hlast, hscan⟩
  refine ⟨nodes' ++ nodes, pending' ++ [p], last, ⟨?_, ?_⟩, hlast, ?_⟩
  · -- What waits inside the right operand is newer than `p` and makes the operand first.
    intro outer
    have hf : AppliesDownTo low reduceAll := appliesDownTo_reduceAll.mono (Nat.zero_le low)
    have hparts' := hparts.reduceAll_eq (nodes ++ outer)
    rw [List.append_assoc, hf.append hparts.tighter hparts',
      appliesDownTo_reduceAll.step hb (Nat.zero_le _) (hreduce outer)]
    rfl
  · intro q hq
    rcases List.mem_append.mp hq with hq | hq
    · exact hparts.tighter q hq
    · rw [List.mem_singleton.mp hq]
      exact ⟨b, hb, hlow⟩
  · intro stop frames rest
    have hassoc : ls ++ t :: rs ++ rest = ls ++ t :: (rs ++ rest) := by simp
    rw [hassoc, hleft, hscan]
    simp

/-! ### Rules of the grammar -/

/-- The phrase is read wherever an operand is due and nothing waits for one tighter than `level`. -/
def Anywhere (low level : Nat) (ts : List Token) (n : Node) : Prop :=
  ∀ slot : Slot, slot.expectsOperand = true → Loose level slot.pending → Reads low slot ts n

/-- An assignment is read with the right side one level up, as it groups to the left. -/
theorem assign {ls rs : List Token} {t : Token} {left right : Node} (hleft : Anywhere 0 0 ls left)
    (ht : t.kind = .assign) (hright : Anywhere 0 1 rs right) :
    Anywhere 0 0 (ls ++ t :: rs) (.apply .assign [left, right]) := by
  intro slot hdue hloose
  have hls := hleft slot hdue hloose
  have hreduce : ∀ outer, reduce (right :: ([left] ++ outer)) (.operator (.left .assign 0) t.span)
      = .ok (.apply .assign [left, right] :: outer) := reduce_dyadic rfl t.span left right
  refine behind rfl (Nat.zero_le _) (hls.then_assign hloose ht) ?_ hreduce
  refine hright _ ?_ ?_
  · show t.kind.startsOperand = true
    rw [ht]
    rfl
  · exact loose_cons rfl Nat.zero_lt_one

/-- A choice is read with its third part at the level of choices, as it groups to the right. -/
theorem choice {cs ys ns : List Token} {q c : Token} {condition yes no : Node}
    (hcondition : Anywhere 1 1 cs condition) (hq : q.kind = .question)
    (hyes : Anywhere 0 0 ys yes) (hc : c.kind = .colon) (hno : Anywhere 0 1 ns no) :
    Anywhere 0 1 (cs ++ q :: (ys ++ c :: ns)) (.apply .ternary [condition, yes, no]) := by
  intro slot hdue hloose
  have hcs := hcondition slot hdue hloose
  have hys : Reads 0 ⟨condition :: slot.nodes, .question q.span :: slot.pending, some q⟩
      ys yes := by
    refine hyes _ ?_ ?_
    · show q.kind.startsOperand = true
      rw [hq]
      rfl
    · exact loose_cons_of_none rfl
  have hleft : ∀ stop frames rest, scan stop slot frames (cs ++ q :: ys ++ c :: rest)
      = scan stop ⟨[yes, condition] ++ slot.nodes, .otherwise q.span :: slot.pending, some c⟩
          frames rest := by
    intro stop frames rest
    have hassoc : cs ++ q :: ys ++ c :: rest = cs ++ q :: (ys ++ c :: rest) := by simp
    rw [hassoc, hcs.then_question hloose hq, hys.then_colon rfl hc]
    rfl
  -- The `?` and its `:` stand like one operator between what they take on the left and the right.
  have hassoc : cs ++ q :: (ys ++ c :: ns) = cs ++ q :: ys ++ c :: ns := by simp
  rw [hassoc]
  refine behind rfl (Nat.zero_le _) hleft ?_ (reduce_otherwise q.span condition yes no)
  refine hno _ ?_ ?_
  · show c.kind.startsOperand = true
    rw [hc]
    rfl
  · exact loose_cons rfl Nat.zero_lt_one

/-- So is any operator of two operands read: its left side on its own level, its right side one
level up. -/
theorem dyadic {level l : Nat} {ls rs : List Token} {t : Token} {op : Op} {left right : Node}
    (hleft : Anywhere l l ls left) (ht : t.kind.dyadic? = some (op, l)) (hlevel : level ≤ l)
    (hlow : low ≤ l) (hright : Anywhere low (l + 1) rs right) :
    Anywhere low level (ls ++ t :: rs) (.apply op [left, right]) := by
  intro slot hdue hloose
  have hloose' := hloose.mono hlevel
  have hls := hleft slot hdue hloose'
  have hreduce : ∀ outer, reduce (right :: ([left] ++ outer)) (.operator (.left op l) t.span)
      = .ok (.apply op [left, right] :: outer) :=
    reduce_dyadic (arity_of_dyadic? ht) t.span left right
  refine behind rfl hlow (hls.then_dyadic hloose' ht) ?_ hreduce
  refine hright _ ?_ ?_
  · exact startsOperand_of_dyadic? ht
  · exact loose_cons rfl (Nat.lt_succ_self l)

/-- An operator before its operand waits whatever waits below it. -/
theorem monadic {level l : Nat} {t : Token} {op : Op} (ht : t.kind.monadic? = some (op, l))
    (hlow : low ≤ l) (h : Anywhere low (l + 1) ts n) :
    Anywhere low level (t :: ts) (.apply op [n]) := by
  intro slot hdue _
  have hleft : ∀ stop frames rest, scan stop slot frames ([] ++ t :: rest)
      = scan stop ⟨[] ++ slot.nodes, .operator (.left op l) t.span :: slot.pending, some t⟩
          frames rest :=
    scan_of_read (isPlain_of_monadic? ht) (read_of_monadic? ht hdue)
  refine behind rfl hlow hleft ?_ (reduce_monadic (arity_of_monadic? ht) t.span n)
  refine h _ ?_ ?_
  · exact startsOperand_of_monadic? ht
  · exact loose_cons rfl (Nat.lt_succ_self l)

/-- A literal or a name is read at any level; an integer must fit. -/
theorem leaf {level : Nat} {t : Token} (ht : t.leaf? = some n)
    (hfit : t.kind = .int → (intLiteral? t.text).isSome = true) : Anywhere low level [t] n := by
  intro slot _ _
  have hvalue := isValue_of_leaf? ht
  refine of_scan (startsOperand_of_isValue hvalue) fun stop frames rest => ?_
  exact scan_of_read (isPlain_of_isValue hvalue)
    (read_of_isValue hvalue (valueNode_of_leaf? ht hfit)) stop frames rest

/-- What is in parentheses is read at any level. -/
theorem paren {level : Nat} {o c : Token} (ho : o.kind = .openParen) (h : Anywhere 0 0 ts n)
    (hc : c.kind = .closeParen) : Anywhere low level (o :: (ts ++ [c])) n := by
  intro slot _ _
  have hlast : c.kind.startsOperand = false := by
    rw [hc]
    rfl
  have hts : Reads 0 ⟨slot.nodes, .paren o.span :: slot.pending, some o⟩ ts n := by
    refine h _ ?_ ?_
    · show o.kind.startsOperand = true
      rw [ho]
      rfl
    · exact loose_cons_of_none rfl
  have hread : slot.read o = .ok ⟨slot.nodes, .paren o.span :: slot.pending, some o⟩ := by
    simp only [Slot.read, ho]
  refine of_scan hlast fun stop frames rest => ?_
  have hassoc : o :: (ts ++ [c]) ++ rest = o :: (ts ++ c :: rest) := by simp
  rw [hassoc, scan_of_read (by rw [ho]; decide) hread, hts.then_closeParen rfl hc]

/-! ### Brackets -/

/-- A bracket that opens puts the slot around it into a frame. -/
theorem scan_open {o : Token} (ho : opensFrame o.kind = true) (stop : Span) (slot : Slot)
    (frames : List Frame) (ts : List Token) :
    scan stop slot frames (o :: ts) = scan stop .empty (Frame.ofToken slot o :: frames) ts := by
  rw [scan.eq_def]
  simp only [ho, if_true]

/-- A comma in a bracket ends an item. -/
theorem scan_comma {c : Token} (hc : c.kind = .comma) {node : Node}
    (hfinish : ∀ place, slot.finish place = .ok node) (stop : Span) (f : Frame)
    (frames : List Frame) (ts : List Token) :
    scan stop slot (f :: frames) (c :: ts)
      = scan stop .empty ({ f with items := node :: f.items } :: frames) ts := by
  rw [scan.eq_def]
  simp only [hc, opensFrame, hfinish]
  rfl

theorem closesList_closer (f : Frame) : f.closer.closesList = true := by
  unfold Frame.closer
  split <;> rfl

theorem startsOperand_closer (f : Frame) : f.closer.startsOperand = false := by
  unfold Frame.closer
  split <;> rfl

/-- A bracket that closes gives the slot around it back, with what was in the bracket. -/
theorem scan_close {c : Token} {f : Frame} (hc : c.kind = f.closer) {items : List Node}
    (hclose : ∀ place, f.close slot place = .ok items) (stop : Span) (frames : List Frame)
    (ts : List Token) :
    scan stop slot (f :: frames) (c :: ts) = scan stop (f.resume items c) frames ts := by
  have hcloses : c.kind.closesList = true := by
    rw [hc]
    exact closesList_closer f
  have hcomma := ne_comma_of_closesList hcloses
  rw [scan.eq_def]
  simp only [opensFrame_of_closesList hcloses, hcomma, hcloses, hclose, if_true, if_false,
    Bool.false_eq_true]
  simp only [hc, if_true, bind, Except.bind]

/-- What is read between an opening token and `c` are the expressions of a bracket. -/
def Fills (ts : List Token) (items : List Node) : Prop :=
  ∀ (c : Token) (f : Frame), c.kind = f.closer →
    ∀ (stop : Span) (frames : List Frame) (rest : List Token),
      scan stop .empty (f :: frames) (ts ++ c :: rest)
        = scan stop (f.resume (items.reverse ++ f.items) c) frames rest

/-- What is in a bracket is read at any level, with a tag before it or not. -/
theorem bracket {level : Nat} {tag : List Token} {text : String} {o c : Token} {items : List Node}
    (htag : Tag tag text) (ho : opensFrame o.kind = true)
    (hc : c.kind = (⟨o, text, [], .empty⟩ : Frame).closer) (h : Fills ts items) :
    Anywhere low level (tag ++ o :: (ts ++ [c]))
      ((⟨o, text, [], .empty⟩ : Frame).node items.reverse) := by
  intro slot hdue _
  have hlast : c.kind.startsOperand = false := by
    rw [hc]
    exact startsOperand_closer _
  refine of_scan hlast fun stop frames rest => ?_
  have hassoc : tag ++ o :: (ts ++ [c]) ++ rest = tag ++ o :: (ts ++ c :: rest) := by simp
  rw [hassoc]
  -- A tag is the value read right before the bracket, and the frame takes it up.
  cases htag with
  | none =>
    rw [List.nil_append, scan_open ho, ofToken_of_expectsOperand hdue]
    refine (h c ⟨o, "", [], slot⟩ hc stop frames rest).trans ?_
    rw [List.append_nil]
    rfl
  | @ident i hi =>
    have hvalue : i.kind.isValue = true := by
      rw [hi]
      rfl
    have hnode : valueNode i = .ok (if i.text = "null" then .null else .ident i.text) := by
      rw [valueNode, hi]
    rw [List.singleton_append,
      scan_of_read (isPlain_of_isValue hvalue) (read_of_isValue hvalue hnode), scan_open ho,
      ofToken_of_identifier rfl hi]
    refine (h c ⟨o, i.text, [], ⟨slot.nodes, slot.pending, some i⟩⟩ hc stop frames rest).trans ?_
    rw [List.append_nil]
    rfl

theorem Fills.nil : Fills [] [] :=
  fun _ _ hc stop frames rest => scan_close hc (fun _ => rfl) stop frames rest

theorem Fills.last (h : Anywhere 0 0 ts n) : Fills ts [n] := by
  intro c f hc stop frames rest
  rcases (h .empty rfl trivial).finish with ⟨slot', hstarted, hfinish, hscan⟩
  rw [hscan]
  refine scan_close hc (fun place => ?_) stop frames rest
  simp only [Frame.close, hstarted, if_true, hfinish]
  rfl

/-- Items are read one after the other, with a comma behind each but the last. -/
theorem Fills.cons {rest : List Token} {t : Token} {ns : List Node} (h : Anywhere 0 0 ts n)
    (ht : t.kind = .comma) (hrest : Fills rest ns) : Fills (ts ++ t :: rest) (n :: ns) := by
  intro c f hc stop frames behind
  rcases (h .empty rfl trivial).finish with ⟨slot', hstarted, hfinish, hscan⟩
  have hassoc : ts ++ t :: rest ++ c :: behind = ts ++ t :: (rest ++ c :: behind) := by simp
  have hrest' := hrest c { f with items := n :: f.items } hc stop frames behind
  rw [hassoc, hscan, scan_comma ht hfinish, hrest']
  simp [Frame.resume, Frame.node]

end Reads

/-! ## Derivations -/

open Reads

/-- An expression is read where nothing waits for a tighter one. -/
theorem reads_expr {ts : List Token} {n : Node} (h : Expr ts n) :
    IntegersFit ts → Anywhere 0 0 ts n := by
  -- What a phrase leaves waiting is at least as tight as the operator that follows it, whose level
  -- is `next`, or of level 1 where none follows.  An atom leaves nothing waiting.
  induction h using Expr.rec
    (motive_2 := fun ts n _ => IntegersFit ts → Anywhere 0 1 ts n)
    (motive_3 := fun level next ts n _ => IntegersFit ts → 1 ≤ level → next ≤ level →
      Anywhere (max next 1) level ts n)
    (motive_4 := fun next ts n _ => IntegersFit ts → ∀ level, Anywhere (max next 1) level ts n)
    (motive_5 := fun ts n _ => IntegersFit ts → ∀ low level, Anywhere low level ts n)
    (motive_6 := fun ts ns _ => IntegersFit ts → Fills ts ns)
  with
  | tern _ ih => exact fun hfit slot hdue hloose => ih hfit slot hdue (hloose.mono (Nat.zero_le 1))
  | assign _ ht _ hleft hright =>
    exact fun hfit => Reads.assign (hleft hfit.left) ht (hright hfit.right.tail)
  | bin _ ih hfit =>
    intro slot hdue hloose
    exact (ih hfit (Nat.le_refl 1) (Nat.zero_le 1) slot hdue hloose).mono (Nat.zero_le _)
  | choice _ hq _ hc _ hcondition hyes hno hfit =>
    exact Reads.choice (hcondition hfit.left (Nat.le_refl 1) (Nat.zero_le 1)) hq
      (hyes hfit.right.tail.left) hc (hno hfit.right.tail.right.tail)
  | operand _ ih hfit _ _ => exact ih hfit _
  | dyadic _ ht hle _ hleft hright hfit hlevel hnext =>
    have hl := level_pos_of_dyadic? ht
    have hls := hleft hfit.left hl (Nat.le_refl _)
    rw [Nat.max_eq_left hl] at hls
    exact Reads.dyadic hls ht hle (by omega) (hright hfit.right.tail (by omega) (by omega))
  | monadic ht hlongest _ ih hfit level =>
    have hl := level_pos_of_monadic? ht
    exact Reads.monadic ht (by omega) (ih hfit.tail (by omega) (by omega))
  | atom _ ih hfit level => exact ih hfit _ level
  | leaf ht hfit low level => exact Reads.leaf ht (hfit _ (List.mem_singleton_self _))
  | paren ho _ hc ih hfit low level => exact Reads.paren ho (ih hfit.tail.left) hc
  | @list tag ts text o c items htag ho _ hc ih hfit low level =>
    have hbracket : Anywhere low level (tag ++ o :: (ts ++ [c]))
        ((⟨o, text, [], .empty⟩ : Frame).node items.reverse) :=
      Reads.bracket htag (by rw [ho]; rfl) (by simp [Frame.closer, ho, hc])
        (ih hfit.right.tail.left)
    simpa [Frame.node, ho] using hbracket
  | @object tag ts text o c fields htag ho _ hc ih hfit low level =>
    have hbracket : Anywhere low level (tag ++ o :: (ts ++ [c]))
        ((⟨o, text, [], .empty⟩ : Frame).node fields.reverse) :=
      Reads.bracket htag (by rw [ho]; rfl) (by simp [Frame.closer, ho, hc])
        (ih hfit.right.tail.left)
    simpa [Frame.node, ho] using hbracket
  | nil => exact Fills.nil
  | last _ ih hfit => exact Fills.last (ih hfit)
  | cons _ ht _ ih hrest hfit => exact Fills.cons (ih hfit.left) ht (hrest hfit.right.tail)

/-! ## A single expression -/

/-- What is read as a phrase begins with a token that is part of it. -/
theorem exists_cons_of_reads {low : Nat} {ts : List Token} {n : Node}
    (h : Reads low .empty ts n) : ∃ t ts', ts = t :: ts' ∧ t.kind.closesList = false := by
  rcases h.finish with ⟨slot', hstarted, -, hscan⟩
  have hend := hscan .origin [] []
  rw [List.append_nil] at hend
  cases ts with
  | nil =>
    -- Nothing would have been read then.
    cases hend
    cases hstarted
  | cons t ts' =>
    refine ⟨t, ts', rfl, ?_⟩
    cases hcloses : t.kind.closesList with
    | false => rfl
    | true =>
      -- Reading would have stopped in front of the closing token.
      have hstop : scan .origin .empty [] (t :: ts') = .ok (.empty, t :: ts') := by
        rw [scan.eq_def]
        simp [opensFrame_of_closesList hcloses, hcloses]
      rw [hstop, scan] at hend
      cases hend

/-- An expression that can be read is read, up to a comma or the end, and the comma is taken along.
-/
theorem parseExpression_of_reads {low : Nat} {ts rest : List Token} {n : Node}
    (h : Reads low .empty ts n) (hrest : ∀ t ∈ rest.head?, t.kind = .comma) :
    parseExpression (ts ++ rest) = (.ok (some n), rest.tail) := by
  rcases exists_cons_of_reads h with ⟨t, ts', rfl, hcloses⟩
  rcases h.finish with ⟨slot', -, hfinish, hscan⟩
  have hall := hscan (endSpan (t :: ts' ++ rest)) [] rest
  rw [List.cons_append] at hall ⊢
  simp only [parseExpression, hcloses, hall, Bool.false_eq_true, if_false]
  cases rest with
  | nil => simp only [scan, hfinish, Except.map, List.tail_nil]
  | cons c cs =>
    have hc : c.kind = .comma := hrest c rfl
    have hstop : scan (endSpan (t :: (ts' ++ c :: cs))) slot' [] (c :: cs)
        = .ok (slot', c :: cs) := by
      rw [scan.eq_def]
      simp [hc, opensFrame]
    simp only [hstop, hfinish, hc, Except.map, if_true, List.tail_cons]

/-- The parser finds the tree of every expression that the grammar derives, with or without a comma
behind it, as long as its integer literals fit. -/
theorem parseSingleExpression_of_single {ts : List Token} {n : Node} (h : Single ts n)
    (hfit : IntegersFit ts) : parseSingleExpression ts = .ok n := by
  cases h with
  | bare h =>
    have hts := reads_expr h hfit .empty rfl trivial
    have hread : parseExpression (ts ++ []) = (.ok (some n), []) :=
      parseExpression_of_reads hts (by simp)
    rw [List.append_nil] at hread
    exact parseSingleExpression_of_some hread
  | comma h ht =>
    have hts := reads_expr h hfit.left .empty rfl trivial
    exact parseSingleExpression_of_some (parseExpression_of_reads hts (by simpa using ht))

/-- `!a == x[1,]` is the negation of a comparison with a list. -/
theorem parseSingleExpression_not_eq_list :
    let ts : List Token := [⟨.not, none, .origin⟩, ⟨.identifier, some "a", .origin⟩,
      ⟨.eq, none, .origin⟩, ⟨.identifier, some "x", .origin⟩, ⟨.openBracket, none, .origin⟩,
      ⟨.int, some "1", .origin⟩, ⟨.comma, none, .origin⟩, ⟨.closeBracket, none, .origin⟩]
    let n : Node := .apply .not [.apply .eq [.ident "a", .list (Kind.ofTag "x") [.int 1]]]
    Single ts n ∧ IntegersFit ts ∧ parseSingleExpression ts = .ok n := by
  intro ts n
  have hone : Expr [⟨.int, some "1", .origin⟩] (.int 1) :=
    .tern (.bin (.operand (.atom (.leaf rfl))))
  have hlist : Atom [⟨.identifier, some "x", .origin⟩, ⟨.openBracket, none, .origin⟩,
      ⟨.int, some "1", .origin⟩, ⟨.comma, none, .origin⟩, ⟨.closeBracket, none, .origin⟩]
      (.list (Kind.ofTag "x") [.int 1]) :=
    .list (.ident rfl) rfl (.cons hone rfl .nil) rfl
  have heq : Bin 2 0 ts.tail (.apply .eq [.ident "a", .list (Kind.ofTag "x") [.int 1]]) :=
    .dyadic (.operand (.atom (.leaf rfl))) rfl (Nat.le_refl 2) (.operand (.atom hlist))
  have hsingle : Single ts n := .bare (.tern (.bin (.operand (.monadic rfl (Nat.zero_le 1) heq))))
  have hfit : IntegersFit ts := by decide
  exact ⟨hsingle, hfit, parseSingleExpression_of_single hsingle hfit⟩

end Edict
