import Edict.Proofs.Lookahead
import Edict.Proofs.Slots
import Edict.Proofs.Words

namespace Edict

/-! # Joined texts and joined tokens

Texts that stand side by side are cut into the words of each of them, if the one on the left is
followed by a character that no word goes on with: a blank, a comma or a colon.  Lists of
expressions are read side by side in the same way.  What follows a list does not change how it is
read, if it is a closing token; and a comma behind a list of one expression goes on to the list
behind the comma, unless the one expression has taken a comma already.

Main statements:

* `Cut.append`: a text is cut into its words in front of such a character;
* `parseParameters_append_close`: a list of expressions ends in front of a closing token as it ends
  at the end of the tokens;
* `parseParameters_commaWords`, `parseParameters_commaWords_error`: single expressions with commas
  between them are read as the list of them just if none but the last has a comma of its own.
-/

namespace Lexer

/-! ## Words in front of a character that ends them -/

section

variable {c d : Char} {cs rest : List Char} {lexeme : Lexeme}

/-- What is read at a place is read there too if such a character is put behind it. -/
theorem readLexeme_append_right (hd : Breaks d) (h : readLexeme c cs = .ok lexeme) :
    readLexeme c (cs ++ d :: rest) = .ok { lexeme with rest := lexeme.rest ++ d :: rest } := by
  rcases readLexeme_behind h with ⟨tail, -, hcs, hbehind⟩
  rw [hcs, List.append_assoc]
  exact hbehind _ (parts_append hd _ _)

/-- Two texts side by side are cut into the words of the one and those of the other. -/
theorem Cut.append {words words' : List Token} (h : Cut readLexeme cs words) (hd : Breaks d)
    (hrest : Cut readLexeme (d :: rest) words') :
    Cut readLexeme (cs ++ d :: rest) (words ++ words') := by
  induction h with
  | nil => exact hrest
  | separator hc _ ih => exact .separator hc ih
  | word hc hread _ ih =>
    have hword := Cut.word hc (readLexeme_append_right hd hread) ih
    exact hword

end

/-! ## Marks with a blank behind them -/

section

variable {rest : List Char} {words : List Token}

/-- A comma and a blank are one word in front of any others. -/
theorem cut_comma (h : Cut readLexeme rest words) :
    Cut readLexeme (',' :: ' ' :: rest) (.mark .comma :: words) := by
  have hmark : ReadsWord readLexeme [','] (.mark .comma) (' ' :: rest) :=
    ⟨',', [], rfl, rfl, rfl, rfl⟩
  exact hmark.cut (.separator rfl h)

theorem cut_colon (h : Cut readLexeme rest words) :
    Cut readLexeme (':' :: ' ' :: rest) (.mark .colon :: words) := by
  have hmark : ReadsWord readLexeme [':'] (.mark .colon) (' ' :: rest) :=
    ⟨':', [], rfl, rfl, rfl, rfl⟩
  exact hmark.cut (.separator rfl h)

theorem cut_arrow (h : Cut readLexeme rest words) :
    Cut readLexeme ('-' :: '>' :: ' ' :: rest) (.mark .arrow :: words) := by
  have hmark : ReadsWord readLexeme ['-', '>'] (.mark .arrow) (' ' :: rest) :=
    ⟨'-', ['>'], rfl, rfl, rfl, rfl⟩
  exact hmark.cut (.separator rfl h)

/-- Texts with commas between them are cut into the words of the texts, with commas between
them. -/
theorem cut_intercalate {texts : List String} {wordss : List (List Token)}
    (h : List.Forall₂ (fun text words => Cut readLexeme text.toList words) texts wordss) :
    Cut readLexeme (", ".intercalate texts).toList (Node.commaWords wordss) := by
  induction h with
  | nil => exact .nil
  | @cons text words texts wordss hfirst hrest ih =>
    cases hrest with
    | nil => simpa [Node.commaWords] using hfirst
    | @cons next words' texts wordss hnext hrest =>
      have hchars : (", ".intercalate (text :: next :: texts)).toList
          = text.toList ++ ',' :: ' ' :: (", ".intercalate (next :: texts)).toList := by
        simp [String.intercalate_cons_cons]
      rw [hchars]
      exact hfirst.append breaks_comma (cut_comma ih)

end

end Lexer

namespace Parser

/-! ## Expressions in front of other tokens -/

section

variable {stop : Span} {slot slot' : Slot} {frames : List Frame} {tokens rest more : List Token}
  {node : Node} {nodes : List Node}

/-- Whether there is an expression does not hang on the place behind it. -/
theorem finish_of_ok {place : Span} (h : slot.finish place = .ok node) (place' : Span) :
    slot.finish place' = .ok node := by
  rcases bind_eq_ok_iff.mp h with ⟨nodes, hnodes, hone⟩
  refine bind_eq_ok_iff.mpr ⟨nodes, hnodes, ?_⟩
  match nodes, hone with
  | [_], hone => exact hone

/-- Outside brackets reading stops at once where an expression can end. -/
theorem scan_of_endsExpression (hmore : endsExpression more) (stop : Span) (slot : Slot) :
    scan stop slot [] more = .ok (slot, more) := by
  match more, hmore with
  | [], _ => rfl
  | t :: ts, hend =>
    rw [scan.eq_def]
    rcases hend with hcomma | hclose
    · have hopen : opensFrame .comma = false := rfl
      simp [hcomma, hopen]
    · simp [opensFrame_of_closesList hclose, hclose]

/-- Reading stops where it did before, if it could stop in front of what follows. -/
theorem scan_append (hmore : endsExpression more)
    (h : scan stop slot frames tokens = .ok (slot', rest)) (stop' : Span) :
    scan stop' slot frames (tokens ++ more) = .ok (slot', rest ++ more) := by
  fun_induction scan stop slot frames tokens generalizing slot' rest with
  | case1 slot =>
    cases h
    exact scan_of_endsExpression hmore stop' slot
  | case2 slot f fs =>
    rcases bind_eq_ok_iff.mp h with ⟨_, _, h⟩
    cases h
  | case3 slot frames t ts hopen ih =>
    rw [List.cons_append, scan.eq_def]
    simp only [hopen, if_true]
    exact ih h
  -- Outside brackets the token that ended the expression still does; inside them reading goes on.
  | case4 slot t ts hopen hcomma =>
    cases h
    have hend : endsExpression (t :: ts ++ more) := .inl hcomma
    exact scan_of_endsExpression hend stop' slot
  | case5 slot t ts hopen hcomma f fs ih =>
    rcases bind_eq_ok_iff.mp h with ⟨node, hnode, h⟩
    rw [List.cons_append, scan.eq_def]
    simp only [hcomma, if_true, hnode]
    exact ih node h
  | case6 slot t ts hopen hcomma hclose =>
    cases h
    have hend : endsExpression (t :: ts ++ more) := .inr hclose
    exact scan_of_endsExpression hend stop' slot
  | case7 slot t ts hopen hcomma hclose f fs ih =>
    rcases bind_eq_ok_iff.mp h with ⟨items, hitems, h⟩
    rw [List.cons_append, scan.eq_def]
    simp only [hopen, hcomma, hclose, if_true, if_false, hitems]
    by_cases hcloser : t.kind = f.closer
    · rw [if_pos hcloser] at h
      simp only [if_pos hcloser]
      exact ih items h
    · rw [if_neg hcloser] at h
      cases h
  | case8 slot frames t ts hopen hcomma hclose ih =>
    rcases bind_eq_ok_iff.mp h with ⟨next, hnext, h⟩
    rw [List.cons_append, scan.eq_def]
    simp only [hopen, hcomma, hclose, if_false, hnext]
    exact ih next h

/-- Whether the last token is a comma. -/
def endsInComma (tokens : List Token) : Bool := tokens.getLast?.any (·.kind = .comma)

/-- A comma that reading goes past inside a bracket has the closing bracket somewhere behind it. -/
theorem endsInComma_of_scan (h : scan stop slot frames tokens = .ok (slot', [])) :
    endsInComma tokens = false := by
  -- What holds of the last token of the others holds of the last token, if there are others.
  have hcons : ∀ {t : Token} {ts : List Token}, (ts = [] → t.kind ≠ .comma) →
      endsInComma ts = false → endsInComma (t :: ts) = false := by
    intro t ts hone hothers
    cases ts with
    | nil => simp [endsInComma, hone rfl]
    | cons u us => simpa [endsInComma] using hothers
  fun_induction scan stop slot frames tokens generalizing slot' with
  | case1 slot => rfl
  | case2 slot f fs => rfl
  | case3 slot frames t ts hopen ih =>
    refine hcons (fun _ hcomma => ?_) (ih h)
    rw [hcomma] at hopen
    cases hopen
  | case4 slot t ts hopen hcomma => cases h
  | case5 slot t ts hopen hcomma f fs ih =>
    rcases bind_eq_ok_iff.mp h with ⟨node, -, h⟩
    -- If the comma were the last token, the bracket would be left open.
    refine hcons (fun hnil => ?_) (ih node h)
    subst hnil
    rcases bind_eq_ok_iff.mp h with ⟨_, -, h⟩
    cases h
  | case6 slot t ts hopen hcomma hclose => cases h
  | case7 slot t ts hopen hcomma hclose f fs ih =>
    rcases bind_eq_ok_iff.mp h with ⟨items, -, h⟩
    split at h
    · exact hcons (fun _ => hcomma) (ih items h)
    · cases h
  | case8 slot frames t ts hopen hcomma hclose ih =>
    rcases bind_eq_ok_iff.mp h with ⟨next, -, h⟩
    exact hcons (fun _ => hcomma) (ih next h)

/-- What has not been read is the end of the tokens. -/
theorem suffix_of_scan (h : scan stop slot frames tokens = .ok (slot', rest)) :
    rest <:+ tokens := by
  -- Each case takes one token off the front, or stops.
  fun_induction scan stop slot frames tokens generalizing slot' rest with
  | case1 slot =>
    cases h
    exact List.suffix_refl []
  | case2 slot f fs =>
    rcases bind_eq_ok_iff.mp h with ⟨_, _, h⟩
    cases h
  | case3 slot frames t ts hopen ih => exact (ih h).trans (List.suffix_cons t ts)
  | case4 slot t ts hopen hcomma =>
    cases h
    exact List.suffix_refl _
  | case5 slot t ts hopen hcomma f fs ih =>
    rcases bind_eq_ok_iff.mp h with ⟨node, -, h⟩
    exact (ih node h).trans (List.suffix_cons t ts)
  | case6 slot t ts hopen hcomma hclose =>
    cases h
    exact List.suffix_refl _
  | case7 slot t ts hopen hcomma hclose f fs ih =>
    rcases bind_eq_ok_iff.mp h with ⟨items, -, h⟩
    split at h
    · exact (ih items h).trans (List.suffix_cons t ts)
    · cases h
  | case8 slot frames t ts hopen hcomma hclose ih =>
    rcases bind_eq_ok_iff.mp h with ⟨next, -, h⟩
    exact (ih next h).trans (List.suffix_cons t ts)

/-- The tokens behind a comma, if there is one in front. -/
def dropComma : List Token → List Token
  | [] => []
  | c :: cs => if c.kind = .comma then cs else c :: cs

/-- Nothing is left without the comma if there was nothing else. -/
theorem dropComma_eq_nil_iff :
    dropComma tokens = [] ↔ tokens = [] ∨ ∃ c : Token, c.kind = .comma ∧ tokens = [c] := by
  cases tokens with
  | nil => simp [dropComma]
  | cons t ts => by_cases hcomma : t.kind = .comma <;> simp [dropComma, hcomma]

/-- The place behind the end of the tokens is the place behind them. -/
theorem endSpan_of_suffix (hne : rest ≠ []) (h : rest <:+ tokens) :
    endSpan rest = endSpan tokens := by
  rcases h with ⟨before, rfl⟩
  rw [endSpan, endSpan, List.getLast?_append_of_ne_nil before hne]

/-- What is not used up is the end of the tokens. -/
theorem suffix_of_parseExpression {outcome : Except ParseError (Option Node)}
    (h : parseExpression tokens = (outcome, rest)) : rest <:+ tokens := by
  cases tokens with
  | nil =>
    cases h
    exact List.suffix_refl []
  | cons t ts =>
    rw [parseExpression] at h
    split at h
    · cases h
      exact List.suffix_refl _
    · split at h
      · cases h
        exact List.suffix_refl _
      · cases h
        exact List.nil_suffix
      · next c cs hscan =>
        obtain rfl := (Prod.mk.inj h).2
        split
        · exact (List.suffix_cons c cs).trans (suffix_of_scan hscan)
        · exact suffix_of_scan hscan

/-- An expression is read where one starts, and reading it uses up the comma behind it. -/
theorem parseExpression_eq_some_iff :
    parseExpression tokens = (.ok (some node), rest) ↔
      (∃ t ∈ tokens.head?, t.kind.closesList = false) ∧
        ∃ slot unread place, scan (endSpan tokens) .empty [] tokens = .ok (slot, unread) ∧
          slot.finish place = .ok node ∧ rest = dropComma unread := by
  cases tokens with
  | nil => simp [parseExpression]
  | cons t ts =>
    simp only [parseExpression, List.head?_cons, Option.mem_some_iff, exists_eq_left']
    -- A token that closes begins no expression.
    cases hclose : t.kind.closesList with
    | true => simp
    | false =>
      simp only [Bool.false_eq_true, if_false, true_and]
      constructor
      · intro h
        split at h
        · cases h
        · next slot hscan =>
          rcases Prod.mk.inj h with ⟨hfinish, hrest⟩
          exact ⟨slot, [], _, hscan, map_some_eq_ok_some.mp hfinish, hrest.symm⟩
        · next slot c cs hscan =>
          rcases Prod.mk.inj h with ⟨hfinish, hrest⟩
          exact ⟨slot, c :: cs, _, hscan, map_some_eq_ok_some.mp hfinish, hrest.symm⟩
      · rintro ⟨slot, unread, place, hscan, hfinish, rfl⟩
        cases unread with
        | nil =>
          simp only [hscan, finish_of_ok hfinish]
          rfl
        | cons c cs =>
          simp only [hscan, finish_of_ok hfinish]
          rfl

/-- Where an expression is read, it is read in front of other tokens too. -/
theorem parseExpression_append (hmore : endsExpression more)
    (h : parseExpression tokens = (.ok (some node), rest)) :
    ∃ unread, unread <:+ tokens ∧ rest = dropComma unread ∧
      (unread = [] → endsInComma tokens = false) ∧
      parseExpression (tokens ++ more) = (.ok (some node), dropComma (unread ++ more)) := by
  rcases parseExpression_eq_some_iff.mp h with
    ⟨⟨t, ht, hclose⟩, slot, unread, place, hscan, hfinish, hrest⟩
  refine ⟨unread, suffix_of_scan hscan, hrest, ?_, ?_⟩
  · rintro rfl
    exact endsInComma_of_scan hscan
  · have hhead : t ∈ (tokens ++ more).head? := by
      rw [List.head?_append, Option.mem_def.mp ht]
      rfl
    exact parseExpression_eq_some_iff.mpr
      ⟨⟨t, hhead, hclose⟩, slot, _, place, scan_append hmore hscan _, hfinish, rfl⟩

/-! ## Lists of expressions -/

/-- A list of expressions ends in front of a closing token as it ends at the end of the tokens. -/
theorem parseParameters_append_close (hmore : ∀ t ∈ more.head?, t.kind.closesList = true)
    (h : parseParameters tokens = .ok (nodes, [])) :
    parseParameters (tokens ++ more) = .ok (nodes, more) := by
  have hend : endsExpression more := by
    cases more with
    | nil => trivial
    | cons t ts => exact .inr (hmore t rfl)
  have hdrop : dropComma more = more := by
    cases more with
    | nil => rfl
    | cons t ts =>
      exact if_neg (ne_comma_of_closesList (hmore t rfl))
  fun_induction parseParameters tokens generalizing nodes with
  | case1 tokens e rest hread => cases h
  | case2 tokens rest hread =>
    cases h
    -- No expression starts here, so nothing is left of the list but what follows it.
    obtain rfl : [] = tokens := (eq_of_parseExpression_none hread).1
    exact parseParameters_of_closesList hmore
  | case3 tokens node rest hread ih =>
    rcases bind_eq_ok_iff.mp h with ⟨⟨others, rest'⟩, hothers, h⟩
    cases h
    rcases parseExpression_append hend hread with ⟨unread, -, hrest, -, hread'⟩
    have hunread : dropComma (unread ++ more) = rest ++ more := by
      rw [hrest]
      cases unread with
      | nil => exact hdrop
      | cons c cs =>
        simp only [dropComma, List.cons_append]
        split
        · rfl
        · rfl
    rw [parseParameters_of_some hread', hunread, ih hothers]
    rfl

/-- A list of one expression is that expression. -/
theorem parseExpression_of_parseParameters (h : parseParameters tokens = .ok ([node], [])) :
    parseExpression tokens = (.ok (some node), []) := by
  rw [parseParameters] at h
  split at h
  · cases h
  · cases h
  · next node' rest hread =>
    rcases bind_eq_ok_iff.mp h with ⟨⟨others, rest'⟩, hothers, h⟩
    cases h
    rw [parseParameters] at hothers
    split at hothers
    · cases hothers
    · next hnone =>
      cases hothers
      rw [hread, ← (eq_of_parseExpression_none hnone).1]
    · rcases bind_eq_ok_iff.mp hothers with ⟨_, _, hothers⟩
      cases hothers

section

variable {c : Token}

/-- Behind a comma the list goes on. -/
theorem parseParameters_append_comma (hcomma : c.kind = .comma)
    (h : parseParameters tokens = .ok ([node], []))
    (hlast : endsInComma tokens = false) :
    parseParameters (tokens ++ c :: more) = (do
      let (nodes, rest) ← parseParameters more
      return (node :: nodes, rest)) := by
  have hend : endsExpression (c :: more) := .inl hcomma
  rcases parseExpression_append hend (parseExpression_of_parseParameters h) with
    ⟨unread, ⟨before, hbefore⟩, hrest, -, hread⟩
  -- Reading stopped at the end, or in front of a last comma, and there is none.
  have hunread : unread = [] := by
    rcases dropComma_eq_nil_iff.mp hrest.symm with hnil | ⟨d, hd, rfl⟩
    · exact hnil
    · rw [← hbefore] at hlast
      simp [endsInComma, hd] at hlast
  have hdrop : dropComma (unread ++ c :: more) = more := by
    rw [hunread]
    exact if_pos hcomma
  rw [parseParameters_of_some hread, hdrop]

/-- Behind two commas it does not. -/
theorem parseParameters_append_comma_error (hcomma : c.kind = .comma)
    (h : parseParameters tokens = .ok ([node], []))
    (hlast : endsInComma tokens = true) :
    parseParameters (tokens ++ c :: more) = .error (.emptyExpression c.span) := by
  have hend : endsExpression (c :: more) := .inl hcomma
  rcases parseExpression_append hend (parseExpression_of_parseParameters h) with
    ⟨unread, -, hrest, hunread, hread⟩
  have hdrop : dropComma (unread ++ c :: more) = c :: more := by
    rcases dropComma_eq_nil_iff.mp hrest.symm with hnil | ⟨d, hd, rfl⟩
    · rw [hunread hnil] at hlast
      cases hlast
    · exact if_pos hd
  -- In front of the second comma there is no expression.
  have hempty : parseExpression (c :: more) = (.error (.emptyExpression c.span), more) := by
    have hclose : c.kind.closesList = false := by
      rw [hcomma]
      rfl
    rw [parseExpression, hclose]
    simp only [Bool.false_eq_true, if_false, scan_of_endsExpression hend, if_pos hcomma]
    rfl
  rw [parseParameters_of_some hread, hdrop, parseParameters, hempty]
  rfl

end

/-- Single expressions with commas between them are read as the list of them, if none but the last
has a comma of its own. -/
theorem parseParameters_commaWords {wordss : List (List Token)}
    (h : List.Forall₂ (fun words node => parseParameters words = .ok ([node], [])) wordss nodes)
    (hlast : ∀ words ∈ wordss.dropLast, endsInComma words = false) :
    parseParameters (Node.commaWords wordss) = .ok (nodes, []) := by
  induction h with
  | nil =>
    rw [Node.commaWords, parseParameters]
    rfl
  | @cons words node wordss nodes hfirst hothers ih =>
    cases hothers with
    | nil => exact hfirst
    | cons hnext hothers =>
      have hwords : endsInComma words = false := hlast words (by simp)
      have hrest := ih fun words' hmem => hlast words' (by simp [hmem])
      rw [Node.commaWords, parseParameters_append_comma rfl hfirst hwords, hrest]
      rfl

/-- Otherwise an expression is missing in front of the first comma that stands behind another. -/
theorem parseParameters_commaWords_error {wordss : List (List Token)}
    (h : List.Forall₂ (fun words node => parseParameters words = .ok ([node], [])) wordss nodes)
    (hlast : ∃ words ∈ wordss.dropLast, endsInComma words = true) :
    parseParameters (Node.commaWords wordss) = .error (.emptyExpression .origin) := by
  induction h with
  | nil => simp at hlast
  | @cons words node wordss nodes hfirst hothers ih =>
    cases hothers with
    | nil => simp at hlast
    | @cons next node' wordss nodes hnext hothers =>
      rw [Node.commaWords]
      cases hwords : endsInComma words with
      | true => exact parseParameters_append_comma_error rfl hfirst hwords
      | false =>
        have hrest : ∃ words' ∈ (next :: wordss).dropLast, endsInComma words' = true := by
          rcases hlast with ⟨words', hmem, hcomma⟩
          rcases List.mem_cons.mp hmem with rfl | hmem
          · rw [hwords] at hcomma
            cases hcomma
          · exact ⟨words', hmem, hcomma⟩
        rw [parseParameters_append_comma rfl hfirst hwords, ih hrest]
        rfl

end

end Parser

end Edict
