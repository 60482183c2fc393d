import Edict.Proofs.Printing
import Edict.Proofs.Subtrees

namespace Edict

open Lexer Edict.Parser

/-! # What text is read as

Not every tree is the outcome of reading a text.  Numbers come without a sign, the names `true`,
`false` and `null` are taken, a list has elements of some kind, no object is written out, and an
operation is one that has a spelling and has as many operands as it takes (`Parsed`).

The invariant: all that a slot and the frames around it hold is such a tree, and the operators that
wait will make one.  Every token keeps it.

Main statement: `parsed_of_parseSingleExpression`.
-/

/-- Whether an operator has a spelling in text. -/
def Op.isWritten : Op → Bool
  | inc | dec => false
  | _ => true

/-- The text starts with a digit, and so it has no sign. -/
def StartsWithDigit (text : String) : Prop :=
  ∃ c cs, text.toList = c :: cs ∧ Lexer.isDigit c = true

/-- The trees that text is read as. -/
inductive Parsed : Node → Prop
  | int {v : Int32} (h : 0 ≤ v) : Parsed (.int v)
  | float {text : String} {v : Binary32} (hdigit : StartsWithDigit text)
      (h : floatLiteral? text = some v) : Parsed (.float v)
  | bool (b : Bool) : Parsed (.bool b)
  | str (s : String) : Parsed (.str s)
  | null : Parsed .null
  | ident {name : String} (h : IsName name) : Parsed (.ident name)
  | list {element : Kind} {items : List Node} (hkind : element ≠ .void)
      (hitems : ∀ item ∈ items, Parsed item) : Parsed (.list element items)
  | construct {typeName : String} {fields : List Node}
      (htag : typeName = "" ∨ typeName.toList ∈ Pattern.identifier.language)
      (hfields : ∀ field ∈ fields, Parsed field) : Parsed (.construct typeName fields)
  | apply {op : Op} {operands : List Node} (hop : op.isWritten = true)
      (harity : operands.length = op.arity) (hoperands : ∀ operand ∈ operands, Parsed operand) :
      Parsed (.apply op operands)

/-! ## Tokens -/

/-- The token is spelled as its kind is: an identifier is a word of its own that is no truth value,
and a number starts with a digit. -/
structure Token.IsLexed (t : Token) : Prop where
  identifier : t.kind = .identifier →
    t.text.toList ∈ Pattern.identifier.language ∧ t.text ≠ "true" ∧ t.text ≠ "false"
  number : t.kind = .int ∨ t.kind = .float → StartsWithDigit t.text

/-- The text of a name is the word that it was read from, and it is neither truth value. -/
theorem identifier_of_isToken {text? : Option String} {word rest : List Char}
    (h : IsToken .identifier text? word rest) :
    text? = some (String.ofList word) ∧ word ∈ Pattern.identifier.language ∧
      ∀ b : Bool, word ≠ (if b then "true" else "false").toList := by
  rcases h with ⟨p, hmatch, hkind, htext⟩
  cases p with
  | symbol kind =>
    cases hkind
    cases hmatch.mem
  | truth _ | int | float | malformed | doubleQuoted | singleQuoted => cases hkind
  | identifier =>
    refine ⟨htext, hmatch.mem, fun b hword => ?_⟩
    -- A truth value has one spelling only, so it would come before a name.
    rcases hmatch.first (.truth b) hword with heq | ⟨hfixed, -⟩
    · cases heq
    · cases hfixed

/-- The text of a number begins with a digit. -/
theorem number_of_isToken {kind : TokenKind} {text? : Option String} {word rest : List Char}
    (h : IsToken kind text? word rest) (hkind : kind = .int ∨ kind = .float) :
    text? = some (String.ofList word) ∧ ∃ c cs, word = c :: cs ∧ isDigit c = true := by
  rcases h with ⟨p, hmatch, hpattern, htext⟩
  rcases exists_cons_of_mem hmatch.mem with ⟨c, cs, hword, hstarts⟩
  cases p with
  | symbol kind' =>
    cases hpattern
    rcases hkind with rfl | rfl <;> cases hmatch.mem
  | int | float => exact ⟨htext, c, cs, hword, hstarts⟩
  | truth _ | malformed | doubleQuoted | singleQuoted | identifier =>
    rcases hkind with rfl | rfl <;> cases hpattern

/-- What the lexer takes for a token has the text that such a token can have. -/
theorem isLexed_of_isToken {kind : TokenKind} {text? : Option String} {word rest : List Char}
    (h : IsToken kind text? word rest) : (⟨kind, text?, .origin⟩ : Token).IsLexed := by
  constructor
  · rintro rfl
    rcases identifier_of_isToken h with ⟨rfl, hmem, hne⟩
    have htext : ∀ s : String, String.ofList word = s → word = s.toList := by
      rintro s rfl
      rw [String.toList_ofList]
    refine ⟨?_, fun heq => hne true (htext _ heq), fun heq => hne false (htext _ heq)⟩
    show (String.ofList word).toList ∈ _
    rwa [String.toList_ofList]
  · intro hkind
    rcases number_of_isToken h hkind with ⟨rfl, c, cs, rfl, hc⟩
    exact ⟨c, cs, String.toList_ofList, hc⟩

/-- All words of a text are such tokens. -/
theorem forall_isLexed_of_cut {cs : List Char} {words : List Token} (h : Cut readLexeme cs words) :
    ∀ t ∈ words, t.IsLexed := by
  induction h with
  | nil => simp
  | separator _ _ ih => exact ih
  | word _ hread _ ih =>
    exact List.forall_mem_cons.mpr ⟨isLexed_of_isToken (readLexeme_isToken hread), ih⟩

/-- Every token of a text is spelled as its kind is. -/
theorem forall_isLexed_of_tokenize {text : String} {tokens : List Token}
    (h : tokenize text = .ok tokens) : ∀ t ∈ tokens, t.IsLexed := by
  intro t ht
  have hcut : Cut readLexeme text.toList (tokens.map Token.bare) :=
    cut_toList_iff.mpr ⟨tokens, h, rfl⟩
  have hbare := forall_isLexed_of_cut hcut t.bare (List.mem_map_of_mem ht)
  exact ⟨hbare.identifier, hbare.number⟩

/-! ## Literals -/

/-- An integer literal of the lexer has no sign. -/
theorem nonneg_of_intLiteral? {text : String} {v : Int32} (hdigit : StartsWithDigit text)
    (h : intLiteral? text = some v) : 0 ≤ v := by
  rcases hdigit with ⟨c, cs, htext, hc⟩
  rcases Option.bind_eq_some_iff.mp h with ⟨z, hz, hn⟩
  rw [htext, integer?_of_isDigit hc] at hz
  rcases Option.map_eq_some_iff.mp hz with ⟨n, -, rfl⟩
  unfold int32? at hn
  split at hn
  · next hrange =>
    cases hn
    rw [Int32.le_iff_toInt_le, Int32.toInt_ofInt_of_le (by omega) (by omega)]
    exact Int.natCast_nonneg n
  · cases hn

/-- A value that is read becomes an expression of the parser. -/
theorem parsed_of_valueNode {t : Token} {n : Node} (ht : t.IsLexed) (hvalue : t.kind.isValue = true)
    (h : valueNode t = .ok n) : Parsed n := by
  unfold valueNode at h
  split at h
  · next hkind =>
    split at h
    · next v hv =>
      cases h
      exact .int (nonneg_of_intLiteral? (ht.number (.inl hkind)) hv)
    · cases h
  · next hkind =>
    split at h
    · next v hv =>
      cases h
      exact .float (ht.number (.inr hkind)) hv
    · cases h
  · cases h
    exact .bool _
  · cases h
    exact .str _
  · next hint hfloat hbool hstr =>
    cases h
    split
    · exact .null
    · next hnull =>
      -- Of the kinds that are values, names are left.
      have hkind : t.kind = .identifier := by
        cases hkind : t.kind <;> first | rfl | simp_all [TokenKind.isValue, TokenKind.symbol?]
      rcases ht.identifier hkind with ⟨hword, htrue, hfalse⟩
      exact .ident ⟨hword, by simp [htrue, hfalse, hnull]⟩

/-! ## What a slot holds -/

/-- The finished expressions are trees that text is read as, and so are those that the waiting
operators will make. -/
structure Holds (nodes : List Node) (pending : List Pending) : Prop where
  nodes : ∀ n ∈ nodes, Parsed n
  pending : ∀ p ∈ pending, ∀ b, p.binding? = some b → b.op.isWritten = true

section

variable {nodes nodes' : List Node} {pending pending' : List Pending} {p : Pending}

theorem Holds.tail (h : Holds nodes (p :: pending)) : Holds nodes pending :=
  ⟨h.nodes, fun q hq => h.pending q (List.mem_cons_of_mem p hq)⟩

/-- What begins to wait may be any operator that can be written. -/
theorem Holds.wait (h : Holds nodes pending)
    (hp : ∀ b, p.binding? = some b → b.op.isWritten = true) : Holds nodes (p :: pending) :=
  ⟨h.nodes, List.forall_mem_cons.mpr ⟨hp, h.pending⟩⟩

/-- A new expression must be one of the parser. -/
theorem Holds.cons {n : Node} (h : Holds nodes pending) (hn : Parsed n) :
    Holds (n :: nodes) pending :=
  ⟨List.forall_mem_cons.mpr ⟨hn, h.nodes⟩, h.pending⟩

/-- An operation gets as many operands as it takes. -/
theorem parsed_of_applyTop {op : Op} {span : Span} (hop : op.isWritten = true)
    (h : ∀ n ∈ nodes, Parsed n) (happly : applyTop op span nodes = .ok nodes') :
    ∀ n ∈ nodes', Parsed n := by
  unfold applyTop at happly
  split at happly
  · next harity =>
    cases happly
    refine List.forall_mem_cons.mpr ⟨.apply hop ?_ ?_, fun n hn => h n (List.mem_of_mem_drop hn)⟩
    · rw [List.length_reverse, List.length_take]
      omega
    · intro operand hoperand
      exact h operand (List.mem_of_mem_take (List.mem_reverse.mp hoperand))
  · cases happly

/-- Applying an operator that can be written to expressions of the parser makes one. -/
theorem Holds.reduce (h : Holds nodes (p :: pending)) (hreduce : reduce nodes p = .ok nodes') :
    Holds nodes' pending := by
  refine ⟨?_, h.tail.pending⟩
  cases p with
  | operator b span => exact parsed_of_applyTop (h.pending _ List.mem_cons_self b rfl) h.nodes hreduce
  | otherwise span => exact parsed_of_applyTop rfl h.nodes hreduce
  | paren span => cases hreduce
  | question span => cases hreduce

/-- So does applying any run of them. -/
theorem Holds.reduceYielding {incoming : Binding} (h : Holds nodes pending)
    (hreduce : reduceYielding incoming nodes pending = .ok (nodes', pending')) :
    Holds nodes' pending' := by
  induction pending generalizing nodes with
  | nil =>
    cases hreduce
    exact h
  | cons p ps ih =>
    rw [Parser.reduceYielding] at hreduce
    split at hreduce
    · split at hreduce
      · rcases bind_eq_ok_iff.1 hreduce with ⟨between, hbetween, hrest⟩
        exact ih (h.reduce hbetween) hrest
      · cases hreduce
        exact h
    · cases hreduce
      exact h

theorem Holds.reduceToParen {close : Span} (h : Holds nodes pending)
    (hreduce : reduceToParen close nodes pending = .ok (nodes', pending')) :
    Holds nodes' pending' := by
  induction pending generalizing nodes with
  | nil => cases hreduce
  | cons p ps ih =>
    cases p with
    | paren span =>
      cases hreduce
      exact h.tail
    | operator _ _ | question _ | otherwise _ =>
      rcases bind_eq_ok_iff.1 hreduce with ⟨between, hbetween, hrest⟩
      exact ih (h.reduce hbetween) hrest

theorem Holds.reduceToQuestion {colon : Span} (h : Holds nodes pending)
    (hreduce : reduceToQuestion colon nodes pending = .ok (nodes', pending')) :
    Holds nodes' pending' := by
  induction pending generalizing nodes with
  | nil => cases hreduce
  | cons p ps ih =>
    cases p with
    | paren span => cases hreduce
    | question span =>
      cases hreduce
      refine h.tail.wait fun b hb => ?_
      cases hb
      rfl
    | operator _ _ | otherwise _ =>
      rcases bind_eq_ok_iff.1 hreduce with ⟨between, hbetween, hrest⟩
      exact ih (h.reduce hbetween) hrest

theorem Holds.reduceAll (h : Holds nodes pending) (hreduce : reduceAll nodes pending = .ok nodes') :
    ∀ n ∈ nodes', Parsed n := by
  induction pending generalizing nodes with
  | nil =>
    cases hreduce
    exact h.nodes
  | cons p ps ih =>
    rw [Parser.reduceAll] at hreduce
    rcases bind_eq_ok_iff.1 hreduce with ⟨between, hbetween, hrest⟩
    exact ih (h.reduce hbetween) hrest

end

/-! ## Slots and frames -/

namespace Parser

/-- A slot holds such trees, and its last token is spelled as its kind is. -/
structure Slot.Sound (slot : Slot) : Prop where
  holds : Holds slot.nodes slot.pending
  last : ∀ t, slot.last? = some t → t.IsLexed

/-- A bracket has a tag or none, and such trees inside and around it. -/
structure Frame.Sound (f : Frame) : Prop where
  tag : f.tag = "" ∨ f.tag.toList ∈ Pattern.identifier.language
  items : ∀ item ∈ f.items, Parsed item
  outer : f.outer.Sound

section

variable {slot slot' : Slot} {frames : List Frame} {f : Frame} {t : Token}

theorem sound_empty : Slot.empty.Sound := by
  refine ⟨⟨?_, ?_⟩, ?_⟩ <;> simp [Slot.empty]

/-- The operators of tokens are those that can be written. -/
theorem isWritten_of_binding? {kind : TokenKind} {b : Binding} (h : slot.binding? kind = some b) :
    b.op.isWritten = true := by
  unfold Slot.binding? at h
  split at h
  · cases kind <;> cases h <;> rfl
  · cases kind <;> cases h <;> rfl

/-- Reading a token keeps a slot sound. -/
theorem Slot.Sound.read (h : slot.Sound) (ht : t.IsLexed) (hread : slot.read t = .ok slot') :
    slot'.Sound := by
  have hlast : ∀ u, some t = some u → u.IsLexed := by
    rintro u hu
    cases hu
    exact ht
  -- One case for each kind of token, in the order in which reading looks at them.
  unfold Slot.read at hread
  split at hread
  · cases hread
    exact ⟨h.holds.wait (by rintro b hb; cases hb), hlast⟩
  · rcases bind_eq_ok_iff.1 hread with ⟨⟨nodes, pending⟩, hreduce, hread⟩
    cases hread
    exact ⟨h.holds.reduceToParen hreduce, hlast⟩
  · rcases bind_eq_ok_iff.1 hread with ⟨⟨nodes, pending⟩, hreduce, hread⟩
    cases hread
    exact ⟨(h.holds.reduceYielding hreduce).wait (by rintro b hb; cases hb), hlast⟩
  · rcases bind_eq_ok_iff.1 hread with ⟨⟨nodes, pending⟩, hreduce, hread⟩
    cases hread
    exact ⟨h.holds.reduceToQuestion hreduce, hlast⟩
  · split at hread
    · next hvalue =>
      rcases bind_eq_ok_iff.1 hread with ⟨n, hn, hread⟩
      cases hread
      exact ⟨h.holds.cons (parsed_of_valueNode ht hvalue hn), hlast⟩
    · split at hread
      · cases hread
      · next b hb =>
        have hwait : ∀ b', some b = some b' → b'.op.isWritten = true := by
          rintro b' hb'
          cases hb'
          exact isWritten_of_binding? hb
        split at hread
        · cases hread
          exact ⟨h.holds.wait hwait, hlast⟩
        · rcases bind_eq_ok_iff.1 hread with ⟨⟨nodes, pending⟩, hreduce, hread⟩
          cases hread
          exact ⟨(h.holds.reduceYielding hreduce).wait hwait, hlast⟩

/-- A sound slot ends as an expression of the parser. -/
theorem Slot.Sound.finish {place : Span} {n : Node} (h : slot.Sound)
    (hfinish : slot.finish place = .ok n) : Parsed n := by
  rcases bind_eq_ok_iff.1 hfinish with ⟨nodes, hreduce, hfinish⟩
  have hnodes := h.holds.reduceAll hreduce
  match nodes, hfinish with
  | [node], hfinish =>
    cases hfinish
    exact hnodes n List.mem_cons_self

/-- A bracket that opens in a sound slot keeps it sound, without the tag that it takes away. -/
theorem Slot.Sound.ofToken (h : slot.Sound) (t : Token) : (Frame.ofToken slot t).Sound := by
  unfold Frame.ofToken
  split
  · next before hbefore =>
    split
    · next hkind =>
      have hnodes : ∀ n ∈ slot.nodes.drop 1, Parsed n :=
        fun n hn => h.holds.nodes n (List.mem_of_mem_drop hn)
      exact ⟨.inr ((h.last before hbefore).identifier hkind).1, by simp,
        ⟨⟨hnodes, h.holds.pending⟩, h.last⟩⟩
    · exact ⟨.inl rfl, by simp, h⟩
  · exact ⟨.inl rfl, by simp, h⟩

/-- What is in a bracket when it closes are expressions of the parser. -/
theorem Frame.Sound.close {items : List Node} {place : Span} (h : f.Sound) (hslot : slot.Sound)
    (hclose : f.close slot place = .ok items) : ∀ item ∈ items, Parsed item := by
  unfold Frame.close at hclose
  split at hclose
  · rcases bind_eq_ok_iff.1 hclose with ⟨n, hfinish, hitems⟩
    cases hitems
    exact List.forall_mem_cons.mpr ⟨hslot.finish hfinish, h.items⟩
  · cases hclose
    exact h.items

/-- The slot around a bracket goes on with the list or the object that the bracket holds. -/
theorem Frame.Sound.resume {items : List Node} (h : f.Sound) (ht : t.IsLexed)
    (hitems : ∀ item ∈ items, Parsed item) : (f.resume items t).Sound := by
  have hitems' : ∀ item ∈ items.reverse, Parsed item :=
    fun item hitem => hitems item (List.mem_reverse.mp hitem)
  have hnode : Parsed (f.node items) := by
    unfold Frame.node
    split
    · refine .list ?_ hitems'
      unfold Kind.ofTag
      split <;> decide
    · exact .construct h.tag hitems'
  refine ⟨h.outer.holds.cons hnode, ?_⟩
  rintro u hu
  cases hu
  exact ht

/-- As far as an expression is read, the slot holds trees that text is read as. -/
theorem sound_of_scan {stop : Span} {tokens rest : List Token} (hslot : slot.Sound)
    (hframes : ∀ f ∈ frames, f.Sound) (htokens : ∀ t ∈ tokens, t.IsLexed)
    (hscan : scan stop slot frames tokens = .ok (slot', rest)) :
    slot'.Sound ∧ ∀ t ∈ rest, t.IsLexed := by
  -- The slot, and all the slots around it, stay sound.
  fun_induction scan stop slot frames tokens with
  | case1 slot =>
    cases hscan
    exact ⟨hslot, htokens⟩
  | case2 slot f fs =>
    rcases bind_eq_ok_iff.1 hscan with ⟨_, _, hunclosed⟩
    cases hunclosed
  | case3 slot frames t ts hopen ih =>
    rcases List.forall_mem_cons.mp htokens with ⟨ht, hts⟩
    exact ih sound_empty (List.forall_mem_cons.mpr ⟨hslot.ofToken t, hframes⟩) hts hscan
  | case4 slot t ts hopen hcomma =>
    cases hscan
    exact ⟨hslot, htokens⟩
  | case5 slot t ts hopen hcomma f fs ih =>
    rcases List.forall_mem_cons.mp htokens with ⟨ht, hts⟩
    rcases List.forall_mem_cons.mp hframes with ⟨hf, hfs⟩
    rcases bind_eq_ok_iff.1 hscan with ⟨n, hfinish, hrest⟩
    have hitems : ∀ item ∈ n :: f.items, Parsed item :=
      List.forall_mem_cons.mpr ⟨hslot.finish hfinish, hf.items⟩
    exact ih n sound_empty (List.forall_mem_cons.mpr ⟨⟨hf.tag, hitems, hf.outer⟩, hfs⟩) hts hrest
  | case6 slot t ts hopen hcomma hcloses =>
    cases hscan
    exact ⟨hslot, htokens⟩
  | case7 slot t ts hopen hcomma hcloses f fs ih =>
    rcases List.forall_mem_cons.mp htokens with ⟨ht, hts⟩
    rcases List.forall_mem_cons.mp hframes with ⟨hf, hfs⟩
    rcases bind_eq_ok_iff.1 hscan with ⟨items, hclose, hrest⟩
    split at hrest
    · exact ih items (hf.resume ht (hf.close hslot hclose)) hfs hts hrest
    · cases hrest
  | case8 slot frames t ts hopen hcomma hcloses ih =>
    rcases List.forall_mem_cons.mp htokens with ⟨ht, hts⟩
    rcases bind_eq_ok_iff.1 hscan with ⟨next, hread, hrest⟩
    exact ih next (hslot.read ht hread) hframes hts hrest

end

end Parser

/-! ## The whole -/

/-- What is read from lexed tokens is an expression of the parser, and what is left are lexed
tokens. -/
theorem parsed_of_parseExpression {tokens rest : List Token} {n : Node}
    (htokens : ∀ t ∈ tokens, t.IsLexed) (h : parseExpression tokens = (.ok (some n), rest)) :
    Parsed n ∧ ∀ t ∈ rest, t.IsLexed := by
  rcases exists_scan_of_parseExpression h with ⟨slot, unread, place, hscan, hfinish, hunread⟩
  rcases sound_of_scan sound_empty (by simp) htokens hscan with ⟨hslot, hunlexed⟩
  refine ⟨hslot.finish hfinish, ?_⟩
  rcases hunread with rfl | ⟨c, -, rfl⟩
  · exact hunlexed
  · exact (List.forall_mem_cons.mp hunlexed).2

theorem parsed_of_parseParameters {tokens rest : List Token} {ns : List Node}
    (htokens : ∀ t ∈ tokens, t.IsLexed) (h : parseParameters tokens = .ok (ns, rest)) :
    ∀ n ∈ ns, Parsed n := by
  fun_induction parseParameters tokens generalizing ns rest with
  | case1 tokens e _ hread => cases h
  | case2 tokens rest' hread =>
    cases h
    simp
  | case3 tokens n between hread ih =>
    rcases bind_eq_ok_iff.1 h with ⟨⟨ns', rest'⟩, hrest, h⟩
    cases h
    rcases parsed_of_parseExpression htokens hread with ⟨hn, hbetween⟩
    exact List.forall_mem_cons.mpr ⟨hn, ih hbetween hrest⟩

/-- All expressions that are read from a text are expressions of the parser. -/
theorem parsed_of_parseParameterList {text : String} {tokens : List Token} {ns : List Node}
    (htokens : tokenize text = .ok tokens) (h : parseParameterList tokens = .ok ns) :
    ∀ n ∈ ns, Parsed n :=
  parsed_of_parseParameters (forall_isLexed_of_tokenize htokens) (parseParameterList_eq_ok_iff.mp h)

/-- What a text is read as is one of these trees. -/
theorem parsed_of_parseSingleExpression {text : String} {tokens : List Token} {n : Node}
    (htokens : tokenize text = .ok tokens) (h : parseSingleExpression tokens = .ok n) :
    Parsed n :=
  parsed_of_parseParameters (forall_isLexed_of_tokenize htokens)
    (parseSingleExpression_eq_ok_iff.mp h) n List.mem_cons_self

/-- So are the arguments of an instruction. -/
theorem parsed_of_parseInstruction {text : String} {tokens : List Token} {parsed : ParsedInstruction}
    (htokens : tokenize text = .ok tokens) (h : parseInstruction tokens = .ok parsed) :
    ∀ n ∈ parsed.parameters, Parsed n := by
  have hlexed := forall_isLexed_of_tokenize htokens
  unfold parseInstruction at h
  split at h
  · cases h
  · next name ts =>
    split at h
    · rcases bind_eq_ok_iff.1 h with ⟨⟨parameters, rest⟩, hparameters, h⟩
      -- What follows the arguments leaves them as they are.
      have hkept : parsed.parameters = parameters := by
        dsimp only at h
        split at h
        · split at h
          · rcases bind_eq_ok_iff.1 h with ⟨⟨modifiers, rest'⟩, -, h⟩
            rcases bind_eq_ok_iff.1 h with ⟨-, -, h⟩
            cases h
            rfl
          · cases h
        · cases h
          rfl
      rw [hkept]
      refine parsed_of_parseParameters (fun t ht => hlexed t (List.mem_cons_of_mem _ ?_)) hparameters
      split at ht
      · split at ht
        · exact List.mem_cons_of_mem _ ht
        · exact ht
      · exact ht
    · cases h

/-- No text is read as a tree with an object in it. -/
theorem Parsed.objectFree {n : Node} (h : Parsed n) : n.ObjectFree := by
  induction h with
  | list _ _ ih => exact .of_parts (by simp) (Node.subtrees_list _ _) ih
  | construct _ _ ih => exact .of_parts (by simp) (Node.subtrees_construct _ _) ih
  | apply _ _ _ ih => exact .of_parts (by simp) (Node.subtrees_apply _ _) ih
  | _ =>
    intro v hmem
    simp [Node.subtrees] at hmem

end Edict
