import Edict.Proofs.Literals
import Edict.Proofs.Rebuilding

namespace Edict

open Lexer Edict.Parser

/-! # Where errors point

An error of the parser stands on a token, and on one that it is about: an operand is missing at an
operator, an `else` at a `?`.  Only if an expression or a name is due at the end of the tokens does
the error stand behind the last of them.  Either way its place is one that the text can be cut at.

A place gets into an error from the token that is being read, or from what has been waiting since a
token further up was read, be it in the slot or in a slot around a bracket.  So the invariant is
that all that waits stands on a token that it comes from (`Pending.ComesFrom`).

Main statement: `parse_error_points_into_text`.
-/

/-- Whether the token is written for an operator, between its operands or before the only one. -/
def TokenKind.Writes (kind : TokenKind) (binding : Binding) : Prop :=
  kind.binding? = some binding ∨ kind.signBinding? = some binding

namespace ParseError

/-- The tokens that an error can be about. -/
def IsAbout (t : Token) : ParseError → Prop
  | emptyInstruction | notSingleExpression _ => False
  | expectedModifierName _ | emptyExpression _ | danglingOperands _ _ => True
  | expectedFunctionName found _ | unexpectedToken found _ => t.kind = found
  | invalidLiteral kind text _ => t.kind = kind ∧ t.text = text
  | unmatchedOpenParen _ => t.kind = .openParen
  | unmatchedCloseParen _ => t.kind = .closeParen
  | unclosedDelimiter opening _ => t.kind = opening ∧ opensFrame opening = true
  | missingOperand op _ =>
    (∃ binding, t.kind.Writes binding ∧ binding.op = op) ∨ t.kind = .question ∧ op = .ternary
  | missingTernaryElse _ => t.kind = .question
  | unexpectedColon _ => t.kind = .colon

/-- Whether an error may stand behind the last token. -/
def mayStandBehind : ParseError → Bool
  | expectedModifierName _ | emptyExpression _ | danglingOperands _ _ => true
  | _ => false

/-- The error has no place, or stands on a token that it can be about, or behind the last token. -/
def PointsInto (tokens : List Token) (e : ParseError) : Prop :=
  ∀ span, e.span? = some span →
    (∃ t ∈ tokens, t.span = span ∧ e.IsAbout t) ∨ e.mayStandBehind = true ∧ span = endSpan tokens

/-- An error that has the place of a token, and is about that token, points into the tokens. -/
theorem pointsInto_of_mem {tokens : List Token} {t : Token} {e : ParseError} (ht : t ∈ tokens)
    (hspan : e.span? = some t.span) (habout : e.IsAbout t) : e.PointsInto tokens := by
  intro span h
  rw [hspan] at h
  cases h
  exact .inl ⟨t, ht, rfl, habout⟩

end ParseError

namespace Parser

/-! ## Outcomes whose errors point into the tokens -/

section

variable {α β : Type} {tokens : List Token} {P : α → Prop} {Q : β → Prop}

/-- A result has the property, and an error points into the tokens. -/
def Points (tokens : List Token) (P : α → Prop) : Except ParseError α → Prop
  | .ok a => P a
  | .error e => e.PointsInto tokens

/-- Two steps whose errors point into the tokens have such errors together. -/
theorem Points.bind {first : Except ParseError α} {next : α → Except ParseError β}
    (hfirst : Points tokens P first) (hnext : ∀ a, P a → Points tokens Q (next a)) :
    Points tokens Q (first >>= next) := by
  cases first with
  | error e => exact hfirst
  | ok a => exact hnext a hfirst

end

/-! ## What waits -/

/-- What waits stands on the token that it comes from. -/
def Pending.ComesFrom (tokens : List Token) : Pending → Prop
  | .paren span => ∃ t ∈ tokens, t.span = span ∧ t.kind = .openParen
  | .operator binding span => ∃ t ∈ tokens, t.span = span ∧ t.kind.Writes binding
  | .question span | .otherwise span => ∃ t ∈ tokens, t.span = span ∧ t.kind = .question

section

variable {tokens : List Token} {nodes : List Node} {pending : List Pending} {p : Pending}

/-- All of a list stands on tokens that it comes from. -/
def AllComeFrom (tokens : List Token) (pending : List Pending) : Prop :=
  ∀ p ∈ pending, p.ComesFrom tokens

/-- The only error is about the operator that is applied. -/
theorem points_applyTop {op : Op} {span : Span}
    (h : (ParseError.missingOperand op span).PointsInto tokens) :
    Points tokens (fun _ => True) (applyTop op span nodes) := by
  unfold applyTop
  split
  · trivial
  · exact h

/-- Each thing that waits came from a token, and its error points there. -/
theorem points_reduce (h : p.ComesFrom tokens) (nodes : List Node) :
    Points tokens (fun _ => True) (reduce nodes p) := by
  cases p with
  | paren span =>
    rcases h with ⟨t, ht, rfl, hkind⟩
    exact ParseError.pointsInto_of_mem ht rfl hkind
  | operator binding span =>
    rcases h with ⟨t, ht, rfl, hwrites⟩
    exact points_applyTop (ParseError.pointsInto_of_mem ht rfl (.inl ⟨binding, hwrites, rfl⟩))
  | question span =>
    rcases h with ⟨t, ht, rfl, hkind⟩
    exact ParseError.pointsInto_of_mem ht rfl hkind
  | «otherwise» span =>
    rcases h with ⟨t, ht, rfl, hkind⟩
    exact points_applyTop (ParseError.pointsInto_of_mem ht rfl (.inr ⟨hkind, rfl⟩))

/-- What still waits has come from the tokens as well. -/
theorem points_reduceYielding (incoming : Binding) (h : AllComeFrom tokens pending) :
    Points tokens (fun r => AllComeFrom tokens r.2) (reduceYielding incoming nodes pending) := by
  induction pending generalizing nodes with
  | nil => exact h
  | cons p ps ih =>
    rw [reduceYielding]
    split
    · split
      · exact (points_reduce (h p List.mem_cons_self) nodes).bind fun _ _ =>
          ih (List.forall_mem_cons.mp h).2
      · exact h
    · exact h

/-- A parenthesis that finds no partner has an error of its own, and so has a colon that finds no
question. -/
theorem points_reduceToParen {t : Token} (ht : t ∈ tokens) (hkind : t.kind = .closeParen)
    (h : AllComeFrom tokens pending) :
    Points tokens (fun r => AllComeFrom tokens r.2) (reduceToParen t.span nodes pending) := by
  induction pending generalizing nodes with
  | nil => exact ParseError.pointsInto_of_mem ht rfl hkind
  | cons p ps ih =>
    have hps : AllComeFrom tokens ps := (List.forall_mem_cons.mp h).2
    cases p with
    | paren _ => exact hps
    | operator _ _ | question _ | «otherwise» _ =>
      exact (points_reduce (h _ List.mem_cons_self) nodes).bind fun _ _ => ih hps

/-- A `?` keeps its place when its `:` has been read. -/
theorem points_reduceToQuestion {t : Token} (ht : t ∈ tokens) (hkind : t.kind = .colon)
    (h : AllComeFrom tokens pending) :
    Points tokens (fun r => AllComeFrom tokens r.2) (reduceToQuestion t.span nodes pending) := by
  induction pending generalizing nodes with
  | nil => exact ParseError.pointsInto_of_mem ht rfl hkind
  | cons p ps ih =>
    have hps : AllComeFrom tokens ps := (List.forall_mem_cons.mp h).2
    cases p with
    | paren _ => exact ParseError.pointsInto_of_mem ht rfl hkind
    | question span =>
      have hspan : (Pending.otherwise span).ComesFrom tokens :=
        h (.question span) List.mem_cons_self
      exact List.forall_mem_cons.mpr ⟨hspan, hps⟩
    | operator _ _ | «otherwise» _ =>
      exact (points_reduce (h _ List.mem_cons_self) nodes).bind fun _ _ => ih hps

theorem points_reduceAll (h : AllComeFrom tokens pending) :
    Points tokens (fun _ => True) (reduceAll nodes pending) := by
  induction pending generalizing nodes with
  | nil => trivial
  | cons p ps ih =>
    exact (points_reduce (h p List.mem_cons_self) nodes).bind fun _ _ =>
      ih (List.forall_mem_cons.mp h).2

end

/-! ## Slots and frames -/

section

variable {tokens : List Token} {slot : Slot} {f : Frame} {t : Token} {place : Span}

/-- All that waits in the slot stands on tokens that it comes from. -/
def Slot.ComesFrom (tokens : List Token) (slot : Slot) : Prop := AllComeFrom tokens slot.pending

/-- So does all that waits around the bracket, and the bracket is one of the tokens. -/
structure Frame.ComesFrom (tokens : List Token) (f : Frame) : Prop where
  opening : f.opening ∈ tokens
  opens : opensFrame f.opening.kind = true
  outer : f.outer.ComesFrom tokens

/-- A place on one of the tokens, or behind the last of them. -/
def IsPlace (tokens : List Token) (place : Span) : Prop :=
  (∃ t ∈ tokens, t.span = place) ∨ place = endSpan tokens

/-- Errors about what is missing may stand behind the last token. -/
theorem pointsInto_of_isPlace {e : ParseError} (hplace : IsPlace tokens place)
    (hspan : e.span? = some place) (habout : ∀ t, e.IsAbout t) (hbehind : e.mayStandBehind = true) :
    e.PointsInto tokens := by
  intro span h
  rw [hspan] at h
  cases h
  rcases hplace with ⟨t, ht, hspan⟩ | hend
  · exact .inl ⟨t, ht, hspan, habout t⟩
  · exact .inr ⟨hbehind, hend⟩

/-- A literal that stands for no value points at itself. -/
theorem points_valueNode (ht : t ∈ tokens) : Points tokens (fun _ => True) (valueNode t) := by
  have hliteral : (ParseError.invalidLiteral t.kind t.text t.span).PointsInto tokens :=
    ParseError.pointsInto_of_mem ht rfl ⟨rfl, rfl⟩
  unfold valueNode
  split
  · split
    · trivial
    · exact hliteral
  · split
    · trivial
    · exact hliteral
  · trivial
  · trivial
  · trivial

/-- An operator is written by the token that it came from. -/
theorem writes_of_binding? {kind : TokenKind} {binding : Binding}
    (h : slot.binding? kind = some binding) : kind.Writes binding := by
  unfold Slot.binding? at h
  split at h
  · rw [Option.orElse_eq_orElse, Option.orElse_eq_or, Option.or_eq_some_iff] at h
    rcases h with hsign | ⟨-, hbinding⟩
    · exact .inr hsign
    · exact .inl hbinding
  · exact .inl h

/-- Reading a token fails at the token, or at one that has been waiting. -/
theorem points_read (h : slot.ComesFrom tokens) (ht : t ∈ tokens) :
    Points tokens (Slot.ComesFrom tokens) (slot.read t) := by
  unfold Slot.read
  split
  · next hkind => exact List.forall_mem_cons.mpr ⟨⟨t, ht, rfl, hkind⟩, h⟩
  · next hkind => exact (points_reduceToParen ht hkind h).bind fun _ hpending => hpending
  · next hkind =>
    refine (points_reduceYielding .ternary h).bind fun _ hpending => ?_
    exact List.forall_mem_cons.mpr ⟨⟨t, ht, rfl, hkind⟩, hpending⟩
  · next hkind => exact (points_reduceToQuestion ht hkind h).bind fun _ hpending => hpending
  · split
    · exact (points_valueNode ht).bind fun _ _ => h
    · split
      · exact ParseError.pointsInto_of_mem ht rfl rfl
      · next binding hbinding =>
        have hwaits : (Pending.operator binding t.span).ComesFrom tokens :=
          ⟨t, ht, rfl, writes_of_binding? hbinding⟩
        split
        · exact List.forall_mem_cons.mpr ⟨hwaits, h⟩
        · refine (points_reduceYielding binding h).bind fun _ hpending => ?_
          exact List.forall_mem_cons.mpr ⟨hwaits, hpending⟩

/-- A slot that ends too early fails at the place where it ends, or at what is waiting. -/
theorem points_finish (h : slot.ComesFrom tokens) (hplace : IsPlace tokens place) :
    Points tokens (fun _ => True) (slot.finish place) := by
  refine (points_reduceAll h).bind fun nodes _ => ?_
  match nodes with
  | [] => exact pointsInto_of_isPlace hplace rfl (fun _ => trivial) rfl
  | [_] => trivial
  | _ :: _ :: _ => exact pointsInto_of_isPlace hplace rfl (fun _ => trivial) rfl

/-- The bracket of a frame came from a token. -/
theorem comesFrom_ofToken (h : slot.ComesFrom tokens) (ht : t ∈ tokens)
    (hopen : opensFrame t.kind = true) : (Frame.ofToken slot t).ComesFrom tokens := by
  unfold Frame.ofToken
  split
  · split
    · exact ⟨ht, hopen, h⟩
    · exact ⟨ht, hopen, h⟩
  · exact ⟨ht, hopen, h⟩

theorem points_close (hslot : slot.ComesFrom tokens) (hplace : IsPlace tokens place) (f : Frame) :
    Points tokens (fun _ => True) (f.close slot place) := by
  unfold Frame.close
  split
  · exact (points_finish hslot hplace).bind fun _ _ => trivial
  · trivial

/-- A bracket that is never closed points at itself. -/
theorem pointsInto_unclosed (h : f.ComesFrom tokens) : f.unclosed.PointsInto tokens :=
  ParseError.pointsInto_of_mem h.opening rfl ⟨rfl, h.opens⟩

end

/-! ## Reading -/

section

variable {tokens rest : List Token}

/-- Every token keeps what waits on tokens, in the slot and in those around it. -/
theorem points_scan {slot : Slot} {frames : List Frame} (hrest : ∀ t ∈ rest, t ∈ tokens)
    (hslot : slot.ComesFrom tokens) (hframes : ∀ f ∈ frames, f.ComesFrom tokens) :
    Points tokens (fun r => r.1.ComesFrom tokens) (scan (endSpan tokens) slot frames rest) := by
  have hempty : Slot.empty.ComesFrom tokens := by simp [Slot.ComesFrom, AllComeFrom, Slot.empty]
  -- What waits, and the brackets that are open, came from tokens before those that are left.
  fun_induction scan (endSpan tokens) slot frames rest with
  | case1 slot => exact hslot
  | case2 slot f fs =>
    exact (points_close hslot (.inr rfl) f).bind fun _ _ =>
      pointsInto_unclosed (hframes f List.mem_cons_self)
  | case3 slot frames t ts hopen ih =>
    rcases List.forall_mem_cons.mp hrest with ⟨ht, hts⟩
    exact ih hts hempty (List.forall_mem_cons.mpr ⟨comesFrom_ofToken hslot ht hopen, hframes⟩)
  | case4 slot t ts hopen hcomma => exact hslot
  | case5 slot t ts hopen hcomma f fs ih =>
    rcases List.forall_mem_cons.mp hrest with ⟨ht, hts⟩
    rcases List.forall_mem_cons.mp hframes with ⟨hf, hfs⟩
    refine (points_finish hslot (.inl ⟨t, ht, rfl⟩)).bind fun node _ => ?_
    exact ih node hts hempty (List.forall_mem_cons.mpr ⟨⟨hf.opening, hf.opens, hf.outer⟩, hfs⟩)
  | case6 slot t ts hopen hcomma hclose => exact hslot
  | case7 slot t ts hopen hcomma hclose f fs ih =>
    rcases List.forall_mem_cons.mp hrest with ⟨ht, hts⟩
    rcases List.forall_mem_cons.mp hframes with ⟨hf, hfs⟩
    refine (points_close hslot (.inl ⟨t, ht, rfl⟩) f).bind fun items _ => ?_
    split
    · exact ih items hts hf.outer hfs
    · exact pointsInto_unclosed hf
  | case8 slot frames t ts hopen hcomma hclose ih =>
    rcases List.forall_mem_cons.mp hrest with ⟨ht, hts⟩
    exact (points_read hslot ht).bind fun next hnext => ih next hts hnext hframes

/-- The errors of reading an expression point into the tokens. -/
theorem points_parseExpression (h : rest <:+ tokens) :
    Points tokens (fun _ => True) (parseExpression rest).1 := by
  -- Finishing a slot is the last thing that can fail.
  have hmap : ∀ {slot : Slot} {place : Span}, slot.ComesFrom tokens → IsPlace tokens place →
      Points tokens (fun _ => True) ((slot.finish place).map some) := by
    intro slot place hslot hplace
    have hfinish := points_finish hslot hplace
    cases hnode : slot.finish place with
    | ok node => trivial
    | error e =>
      rw [hnode] at hfinish
      exact hfinish
  cases rest with
  | nil => trivial
  | cons t ts =>
    have hempty : Slot.empty.ComesFrom tokens := by simp [Slot.ComesFrom, AllComeFrom, Slot.empty]
    have hread : Points tokens (fun r => r.1.ComesFrom tokens)
        (scan (endSpan tokens) .empty [] (t :: ts)) :=
      points_scan (fun u hu => h.subset hu) hempty (by simp)
    rw [parseExpression, endSpan_of_suffix (List.cons_ne_nil t ts) h]
    split
    · trivial
    · split
      · next e hscan =>
        rw [hscan] at hread
        exact hread
      · next slot hscan =>
        rw [hscan] at hread
        exact hmap hread (.inr rfl)
      · next slot c cs hscan =>
        rw [hscan] at hread
        have hc : c ∈ tokens := (suffix_of_scan hscan |>.trans h).subset List.mem_cons_self
        exact hmap hread (.inl ⟨c, hc, rfl⟩)

/-- So do those of lists of expressions and of names, of what is left over, and of the three ways to
read all tokens. -/
theorem points_parseParameters (h : rest <:+ tokens) :
    Points tokens (fun r => r.2 <:+ tokens) (parseParameters rest) := by
  have hread := points_parseExpression h
  fun_induction parseParameters rest with
  | case1 rest e rest' hexpression =>
    rw [hexpression] at hread
    exact hread
  | case2 rest rest' hexpression =>
    rw [(eq_of_parseExpression_none hexpression).1]
    exact h
  | case3 rest node rest' hexpression ih =>
    have hrest' : rest' <:+ tokens := (suffix_of_parseExpression hexpression).trans h
    exact (ih hrest' (points_parseExpression hrest')).bind fun _ hr => hr

theorem points_parseModifiers (h : rest <:+ tokens) :
    Points tokens (fun r => r.2 <:+ tokens) (parseModifiers (endSpan tokens) rest) := by
  fun_induction parseModifiers (endSpan tokens) rest with
  | case1 => exact pointsInto_of_isPlace (.inr rfl) rfl (fun _ => trivial) rfl
  | case2 t hname => exact List.nil_suffix
  | case3 t hname c cs hcomma ih =>
    have hcs : cs <:+ tokens := ((List.suffix_cons c cs).trans (List.suffix_cons t _)).trans h
    exact (ih hcs).bind fun _ hr => hr
  | case4 t hname c cs hcomma => exact (List.suffix_cons t _).trans h
  | case5 t ts hname => exact ParseError.pointsInto_of_mem (h.subset List.mem_cons_self) rfl trivial

theorem points_expectEnd (h : rest <:+ tokens) :
    Points tokens (fun _ => True) (expectEnd rest) := by
  cases rest with
  | nil => trivial
  | cons t ts => exact ParseError.pointsInto_of_mem (h.subset List.mem_cons_self) rfl rfl

end

end Parser

/-! ## The three ways to read -/

section

variable (tokens : List Token)

theorem points_parseParameterList :
    Points tokens (fun _ => True) (parseParameterList tokens) := by
  refine (points_parseParameters (List.suffix_refl tokens)).bind fun r hr => ?_
  exact (points_expectEnd hr).bind fun _ _ => trivial

theorem points_parseSingleExpression :
    Points tokens (fun _ => True) (parseSingleExpression tokens) := by
  refine (points_parseParameterList tokens).bind fun nodes _ => ?_
  match nodes with
  | [] => exact pointsInto_of_isPlace (.inr rfl) rfl (fun _ => trivial) rfl
  | [_] => trivial
  | _ :: _ :: _ => exact fun span h => nomatch h

theorem points_parseInstruction : Points tokens (fun _ => True) (parseInstruction tokens) := by
  cases tokens with
  | nil => exact fun span h => nomatch h
  | cons name ts =>
    simp only [parseInstruction]
    split
    · refine (@points_parseParameters (name :: ts) _ ?_).bind fun r hrest => ?_
      · cases ts with
        | nil => exact List.nil_suffix
        | cons c cs =>
          dsimp only
          split
          · exact (List.suffix_cons c cs).trans (List.suffix_cons name _)
          · exact List.suffix_cons name _
      rcases r with ⟨parameters, rest⟩
      -- What is left behind the parameters, or behind the modifiers, must be nothing.
      have hend : ∀ m : List String × List Token, m.2 <:+ name :: ts →
          Points (name :: ts) (fun _ => True) (do
            let _ ← expectEnd m.2
            return ⟨name.text, name.span, parameters, m.1⟩ : Except ParseError ParsedInstruction) :=
        fun m hm => (points_expectEnd hm).bind fun _ _ => trivial
      cases rest with
      | nil => exact hend ([], []) hrest
      | cons arrow names =>
        dsimp only
        split
        · have hnames : names <:+ name :: ts := (List.suffix_cons arrow names).trans hrest
          exact (points_parseModifiers hnames).bind hend
        · exact hend ([], arrow :: names) hrest
    · exact ParseError.pointsInto_of_mem List.mem_cons_self rfl rfl

end

/-! ## The text -/

section

variable {text : String} {tokens : List Token}

/-- The text can be cut at every token, and right behind the last. -/
theorem isSome_slice_of_isPlace (hsize : text.utf8ByteSize < 4294967296)
    (htokens : tokenize text = .ok tokens) {span : Span} (h : IsPlace tokens span) :
    (span.slice text).isSome := by
  rcases exists_partition_keptTokens hsize with ⟨read, unread, hsplit, hpartition⟩
  rw [keptTokens_eq htokens] at hpartition
  -- Every token stands between two parts of the text, so its place cuts no character.
  have hstands : ∀ t ∈ tokens, ∃ before word after, text.toList = before ++ word ++ after ∧
      t.span = ⟨byteLength before, byteLength (before ++ word)⟩ := by
    intro t ht
    rcases hpartition.stands t ht with ⟨before, word, after, rfl, hspan, -⟩
    rw [Nat.zero_add, Nat.zero_add] at hspan
    exact ⟨before, word, after ++ unread, by rw [hsplit, List.append_assoc _ after], hspan⟩
  rcases h with ⟨t, ht, rfl⟩ | rfl
  · rcases hstands t ht with ⟨before, word, after, htext, hspan⟩
    rw [hspan, slice_of_append htext]
    rfl
  · -- The place behind the last token is a place in the text too.
    unfold endSpan
    split
    · next t hlast =>
      rcases hstands t (List.mem_of_getLast? hlast) with ⟨before, word, after, htext, hspan⟩
      have htext' : text.toList = (before ++ word) ++ [] ++ after := by rw [htext, List.append_nil]
      have hempty := slice_of_append htext'
      rw [List.append_nil] at hempty
      rw [hspan, Span.point, hempty]
      rfl
    · have htext : text.toList = [] ++ [] ++ text.toList := rfl
      have hempty := slice_of_append htext
      rw [Span.origin]
      exact Option.isSome_of_eq_some hempty

/-- An error that has a place has it on one of the tokens that it can be about, or, if what is due
there may also be due at the end, right behind the last token.  The text can be cut there. -/
theorem parse_error_points_into_text (hsize : text.utf8ByteSize < 4294967296)
    (htokens : tokenize text = .ok tokens) {e : ParseError}
    (h : parseInstruction tokens = .error e ∨ parseParameterList tokens = .error e ∨
      parseSingleExpression tokens = .error e) {span : Span} (hspan : e.span? = some span) :
    ((∃ t ∈ tokens, t.span = span ∧ e.IsAbout t) ∨
        e.mayStandBehind = true ∧ span = endSpan tokens) ∧
      (span.slice text).isSome := by
  have hpoints : e.PointsInto tokens := by
    rcases h with h | h | h
    · have hread := points_parseInstruction tokens
      rwa [h] at hread
    · have hread := points_parseParameterList tokens
      rwa [h] at hread
    · have hread := points_parseSingleExpression tokens
      rwa [h] at hread
  refine ⟨hpoints span hspan, isSome_slice_of_isPlace hsize htokens ?_⟩
  rcases hpoints span hspan with ⟨t, ht, hspan, -⟩ | ⟨-, hend⟩
  · exact .inl ⟨t, ht, hspan⟩
  · exact .inr hend

/-- A `?` without its `:` is noticed where the bracket around it is closed, and the error stands on
the `?`. -/
theorem missing_else_points_into_text :
    ∃ tokens, tokenize "f [x ?]" = .ok tokens ∧
      parseInstruction tokens = .error (.missingTernaryElse ⟨5, 6⟩) ∧
      ((∃ t ∈ tokens, t.span = ⟨5, 6⟩ ∧ t.kind = .question) ∨ ⟨5, 6⟩ = endSpan tokens) ∧
      (Span.slice ⟨5, 6⟩ "f [x ?]").isSome := by
  have htokens : tokenize "f [x ?]" = .ok
      [⟨.identifier, some "f", ⟨0, 1⟩⟩, ⟨.openBracket, none, ⟨2, 3⟩⟩,
        ⟨.identifier, some "x", ⟨3, 4⟩⟩, ⟨.question, none, ⟨5, 6⟩⟩,
        ⟨.closeBracket, none, ⟨6, 7⟩⟩] := by
    decide +kernel
  refine ⟨_, htokens, ?_⟩
  have herror : parseInstruction
      [⟨.identifier, some "f", ⟨0, 1⟩⟩, ⟨.openBracket, none, ⟨2, 3⟩⟩,
        ⟨.identifier, some "x", ⟨3, 4⟩⟩, ⟨.question, none, ⟨5, 6⟩⟩,
        ⟨.closeBracket, none, ⟨6, 7⟩⟩] = .error (.missingTernaryElse ⟨5, 6⟩) := by
    simp only [parseInstruction, if_true]
    rw [parseParameters]
    rfl
  rcases parse_error_points_into_text (by decide) htokens (.inl herror) rfl with
    ⟨habout | ⟨-, hend⟩, hslice⟩
  · exact ⟨herror, .inl habout, hslice⟩
  · exact ⟨herror, .inr hend, hslice⟩

end

end Edict
