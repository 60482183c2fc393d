import Edict.Parser.Indexed
import Edict.Parser.Expression
import Edict.Proofs.Nesting

namespace Edict.Parser

/-! # Reading by index

Reading by index comes to the same as reading the tokens to come, and moves the index by as many
tokens as are used up.  So it comes to an end with every depth that is large enough.

Going on in an expression needs that lists of expressions are read right further on, and reading a
list needs that expressions are.  The index grows from a bracket to the list in it and from an
expression to the next, so one follows from the other: first for an expression, given all lists
further on (`readFrom_eq`), then for lists, by induction on the number of tokens to come
(`agreesFrom`).

What stands before the index makes no difference at any depth, as an expression looks back no
further than to its start (`previous?_append`).  Here the induction is on the depth (`readsBehind`).

Main statements: `parseExpressionAt_eq`, `reading_advances_and_ends`,
`reading_depends_on_tokens_to_come`.
-/

section

variable {tokens rest : List Token} {depth index start i : Nat} {slot : Slot}

/-! ## Indexes and tokens to come -/

/-- The index to go on from when `rest` is left of the tokens from `index` on. -/
def nextIndex (tokens : List Token) (index : Nat) (rest : List Token) : Nat :=
  index + ((tokens.drop index).length - rest.length)

/-- Where nothing has been read, the next index is the index. -/
theorem nextIndex_drop : nextIndex tokens index (tokens.drop index) = index := by
  rw [nextIndex, Nat.sub_self, Nat.add_zero]

/-- The next index is that of the tokens that are left. -/
theorem drop_nextIndex (h : rest <:+ tokens.drop index) :
    tokens.drop (nextIndex tokens index rest) = rest := by
  rw [nextIndex, ← List.drop_drop]
  exact (List.suffix_iff_eq_drop.mp h).symm

/-- Where something has been read the next index is larger, and within the tokens. -/
theorem nextIndex_bounds (h : rest.length < (tokens.drop index).length) :
    index < nextIndex tokens index rest ∧ nextIndex tokens index rest ≤ tokens.length := by
  rw [List.length_drop] at h
  rw [nextIndex, List.length_drop]
  omega

/-- No more expressions are read than tokens are used up. -/
theorem length_le_of_parseParameters {nodes : List Node}
    (h : parseParameters tokens = .ok (nodes, rest)) :
    nodes.length + rest.length ≤ tokens.length := by
  fun_induction parseParameters tokens generalizing nodes rest with
  | case1 tokens e rest' hread => cases h
  | case2 tokens rest' hread =>
    cases h
    rw [(eq_of_parseExpression_none hread).1, List.length_nil, Nat.zero_add]
  | case3 tokens node rest' hread ih =>
    rcases bind_eq_ok_iff.mp h with ⟨⟨others, rest''⟩, hothers, h⟩
    cases h
    have hlt := parseExpression_length_lt hread
    have hle := ih hothers
    rw [List.length_cons]
    omega

/-! ## One expression -/

/-- What going on in an expression comes to when it is read to its end, or an error is found. -/
def atEnd (tokens : List Token) (start : Nat) :
    Except ParseError (Slot × List Token) → Except ParseError Node × Nat
  | .error e => (.error e, start)
  | .ok (slot, unread) =>
    (slot.finish (endPlace (endSpan tokens) unread), tokens.length - (dropComma unread).length)

/-- A comma that ends an expression is taken along. -/
theorem atEnd_of_comma (hlt : i < tokens.length) (hcomma : tokens[i].kind = .comma) :
    atEnd tokens start (.ok (slot, tokens[i] :: tokens.drop (i + 1)))
      = (slot.finish tokens[i].span, i + 1) := by
  rw [atEnd, dropComma, if_pos hcomma, List.length_drop, Nat.sub_sub_self (by omega)]
  rfl

/-- A token that closes ends an expression and is left. -/
theorem atEnd_of_closesList (hlt : i < tokens.length)
    (hclose : tokens[i].kind.closesList = true) :
    atEnd tokens start (.ok (slot, tokens[i] :: tokens.drop (i + 1)))
      = (slot.finish tokens[i].span, i) := by
  rw [atEnd, dropComma, if_neg (ne_comma_of_closesList hclose), ← List.drop_eq_getElem_cons hlt,
    List.length_drop, Nat.sub_sub_self (by omega), List.drop_eq_getElem_cons hlt]
  rfl

/-- A depth that is enough to read a list of expressions from `index` on.  With each token it takes
four calls at most to come to the next list: an expression, its rounds, a bracket, the list in it. -/
def enough (tokens : List Token) (index : Nat) : Nat := 4 * (tokens.length - index) + 3

/-- A list of expressions is read by index as it is read from the tokens to come, and leaves the
index of those that it leaves. -/
def AgreesFrom (tokens : List Token) (index : Nat) : Prop :=
  ∃ next, (∀ depth, enough tokens index ≤ depth → parseParametersAt tokens depth index
      = some ((parseParameters (tokens.drop index)).map Prod.fst, next)) ∧
    ∀ nodes rest, parseParameters (tokens.drop index) = .ok (nodes, rest) → tokens.drop next = rest

/-- Inside an expression one may look back at the token before. -/
theorem previous?_succ (h : start ≤ i) : previous? tokens start (i + 1) = tokens[i]? := by
  have hne : i + 1 ≠ start := by omega
  rw [previous?, if_neg hne, Nat.add_sub_cancel]

theorem items_ofToken (slot : Slot) (t : Token) : (Frame.ofToken slot t).items = [] := by
  unfold Frame.ofToken
  split
  · split
    · rfl
    · rfl
  · rfl

/-- A bracket is read by index as it is read in front of the tokens to come. -/
theorem readNested_cases {f : Frame} (hitems : f.items = []) (h : AgreesFrom tokens (i + 1))
    (hdepth : enough tokens (i + 1) < depth) :
    (∃ e, readNested tokens depth f i = some (.error e) ∧
        f.fill (tokens.drop (i + 1)) = .error e) ∨
      ∃ next close, readNested tokens depth f i = some (.ok (next, close)) ∧
        f.fill (tokens.drop (i + 1)) = .ok (next, tokens.drop (close + 1)) ∧
        i < close ∧ close < tokens.length ∧ next.last? = tokens[close]? := by
  obtain ⟨depth, rfl⟩ : ∃ d, depth = d + 1 := ⟨depth - 1, by omega⟩
  rcases h with ⟨close, hread, hclose⟩
  rw [readNested, hread depth (by omega)]
  unfold Frame.fill
  cases hparameters : parseParameters (tokens.drop (i + 1)) with
  | error e => exact .inl ⟨e, rfl, rfl⟩
  | ok r =>
    rcases r with ⟨nodes, rest⟩
    obtain rfl : tokens.drop close = rest := hclose nodes rest hparameters
    -- The list may end at the end of the tokens, at its own closing token, or at another one.
    by_cases hlt : close < tokens.length
    · have hlength := length_le_of_parseParameters hparameters
      rw [List.length_drop, List.length_drop] at hlength
      rw [List.drop_eq_getElem_cons hlt]
      by_cases hcloser : tokens[close].kind = f.closer
      · refine .inr ⟨f.resume nodes.reverse tokens[close], close, ?_, ?_, by omega, hlt, ?_⟩
        · exact (dif_pos hlt).trans (if_pos hcloser)
        · have hresume : nodes.reverse = nodes.reverse ++ f.items := by
            rw [hitems, List.append_nil]
          rw [hresume]
          exact if_pos hcloser
        · exact (List.getElem?_eq_getElem hlt).symm
      · exact .inl ⟨f.unclosed, (dif_pos hlt).trans (if_neg hcloser), if_neg hcloser⟩
    · have hnil : tokens.drop close = [] := List.drop_eq_nil_of_le (by omega)
      rw [hnil]
      exact .inl ⟨f.unclosed, dif_neg hlt, rfl⟩

/-- Going on in an expression is reading the tokens to come, if lists of expressions are read right
further on. -/
theorem readFrom_eq (hagrees : ∀ j, i < j → j ≤ tokens.length → AgreesFrom tokens j)
    (hstart : start ≤ i) (hi : i ≤ tokens.length) (hlast : slot.last? = previous? tokens start i)
    (hdepth : 4 * (tokens.length - i) < depth) :
    readFrom tokens depth start i slot.nodes slot.pending
      = some (atEnd tokens start (scan (endSpan tokens) slot [] (tokens.drop i))) := by
  -- What is kept from round to round is that the slot's last token is the one before the index.
  induction depth generalizing i slot with
  | zero => cases hdepth
  | succ depth ih =>
    have hslot : (⟨slot.nodes, slot.pending, previous? tokens start i⟩ : Slot) = slot := by
      rw [← hlast]
    rw [readFrom, hslot]
    by_cases hlt : i < tokens.length
    · rw [dif_pos hlt, List.drop_eq_getElem_cons hlt]
      by_cases hopen : opensFrame tokens[i].kind = true
      · have hstop : tokens.drop (i + 1) ≠ [] → endSpan (tokens.drop (i + 1)) = endSpan tokens :=
          fun hne => endSpan_of_suffix hne (List.drop_suffix _ _)
        have hnested : enough tokens (i + 1) < depth := by
          unfold enough
          omega
        rw [Reads.scan_open hopen, scan_bracket _ _ hstop]
        simp only [hopen, if_true]
        rcases readNested_cases (items_ofToken slot tokens[i]) (hagrees _ (Nat.lt_succ_self i) hlt)
          hnested with ⟨e, hread, hfill⟩ | ⟨next, close, hread, hfill, hbehind, hbefore, hlast'⟩
        · rw [hread, hfill]
          rfl
        · rw [hread, hfill]
          have hprevious : next.last? = previous? tokens start (close + 1) := by
            rw [hlast', previous?_succ (by omega)]
          exact ih (fun j hj => hagrees j (by omega)) (by omega) (by omega) hprevious (by omega)
      · rw [scan.eq_def]
        simp only [hopen, if_false, Bool.false_eq_true]
        by_cases hcomma : tokens[i].kind = .comma
        · simp only [hcomma, if_true]
          rw [atEnd_of_comma hlt hcomma]
          rfl
        · by_cases hclose : tokens[i].kind.closesList = true
          · simp only [hcomma, hclose, if_true, if_false]
            rw [atEnd_of_closesList hlt hclose]
            rfl
          · simp only [hcomma, hclose, if_false, Bool.false_eq_true]
            cases hread : slot.read tokens[i] with
            | error e => rfl
            | ok next =>
              have hprevious : next.last? = previous? tokens start (i + 1) := by
                rw [(added_of_read hread).last, previous?_succ hstart, List.getElem?_eq_getElem hlt]
              exact ih (fun j hj => hagrees j (by omega)) (by omega) (by omega) hprevious (by omega)
    · have hnil : tokens.drop i = [] := List.drop_eq_nil_of_le (by omega)
      rw [dif_neg hlt, hnil]
      rfl

/-- An expression is read by index as it is read from the tokens to come. -/
theorem parseExpressionAt_of_agrees
    (hagrees : ∀ j, index < j → j ≤ tokens.length → AgreesFrom tokens j)
    (hdepth : enough tokens index ≤ depth + 1) :
    parseExpressionAt tokens depth index
      = some ((parseExpression (tokens.drop index)).1,
          nextIndex tokens index (parseExpression (tokens.drop index)).2) := by
  unfold enough at hdepth
  obtain ⟨depth, rfl⟩ : ∃ d, depth = d + 1 := ⟨depth - 1, by omega⟩
  rw [parseExpressionAt]
  by_cases hlt : index < tokens.length
  · have hdrop := List.drop_eq_getElem_cons hlt
    rw [dif_pos hlt]
    -- A token that closes is no beginning of an expression.
    cases hclose : tokens[index].kind.closesList with
    | true =>
      have hnone : parseExpression (tokens.drop index) = (.ok none, tokens.drop index) := by
        rw [hdrop, parseExpression, if_pos hclose]
      rw [hnone, nextIndex_drop]
      rfl
    | false =>
      have hread : readFrom tokens depth index index [] []
          = some (atEnd tokens index (scan (endSpan tokens) .empty [] (tokens.drop index))) :=
        @readFrom_eq tokens depth index index .empty hagrees (Nat.le_refl index) (by omega)
          (if_pos rfl).symm (by omega)
      have hend : endSpan (tokens.drop index) = endSpan tokens := by
        have hne : tokens.drop index ≠ [] := by
          rw [hdrop]
          exact List.cons_ne_nil _ _
        exact endSpan_of_suffix hne (List.drop_suffix _ _)
      have hcons := parseExpression_cons hclose (tokens.drop (index + 1))
      rw [← hdrop, hend] at hcons
      rw [hread, hcons]
      rcases hscan : scan (endSpan tokens) .empty [] (tokens.drop index) with e | ⟨slot, unread⟩
      · have hindex : nextIndex tokens index (tokens.drop index) = index := nextIndex_drop
        rw [hindex]
        rfl
      · rw [hscan] at hcons
        have hindex : tokens.length - (dropComma unread).length
            = nextIndex tokens index (dropComma unread) := by
          have hlength := (suffix_of_parseExpression hcons).length_le
          rw [List.length_drop] at hlength
          rw [nextIndex, List.length_drop]
          omega
        rw [atEnd, hindex]
        rfl
  · have hnil : tokens.drop index = [] := List.drop_eq_nil_of_le (by omega)
    rw [dif_neg hlt, nextIndex, hnil]
    rfl

/-! ## Lists of expressions -/

/-- There is depth left as long as there is enough of it. -/
theorem exists_eq_succ_of_enough (h : enough tokens index ≤ depth) : ∃ d, depth = d + 1 := by
  unfold enough at h
  exact ⟨depth - 1, by omega⟩

section

variable (hagrees : ∀ j, index < j → j ≤ tokens.length → AgreesFrom tokens j)

include hagrees

/-- Reading by index agrees with reading from the front: on errors, at the end, and by induction on
the tokens that are left everywhere. -/
theorem agreesFrom_of_error {e : ParseError}
    (hread : parseExpression (tokens.drop index) = (.error e, rest)) :
    AgreesFrom tokens index := by
  unfold AgreesFrom
  rw [parseParameters_of_error hread]
  refine ⟨nextIndex tokens index rest, fun depth hdepth => ?_, fun _ _ h => nomatch h⟩
  rcases exists_eq_succ_of_enough hdepth with ⟨depth, rfl⟩
  rw [parseParametersAt, parseExpressionAt_of_agrees hagrees hdepth, hread]
  rfl

theorem agreesFrom_of_none (hread : parseExpression (tokens.drop index) = (.ok none, rest)) :
    AgreesFrom tokens index := by
  obtain ⟨rfl, hclose⟩ := eq_of_parseExpression_none hread
  unfold AgreesFrom
  rw [parseParameters_of_closesList hclose]
  refine ⟨index, fun depth hdepth => ?_, fun nodes rest h => ?_⟩
  · rcases exists_eq_succ_of_enough hdepth with ⟨depth, rfl⟩
    rw [parseParametersAt, parseExpressionAt_of_agrees hagrees hdepth, hread, nextIndex_drop]
    rfl
  · cases h
    rfl

/-- Behind an expression the list goes on at an index further on. -/
theorem agreesFrom_of_some {node : Node}
    (hread : parseExpression (tokens.drop index) = (.ok (some node), rest)) :
    AgreesFrom tokens index := by
  have hbounds := nextIndex_bounds (parseExpression_length_lt hread)
  have hdrop := drop_nextIndex (suffix_of_parseExpression hread)
  rcases hagrees _ hbounds.1 hbounds.2 with ⟨next, hothers, hnext⟩
  rw [hdrop] at hothers hnext
  unfold AgreesFrom
  rw [parseParameters_of_some hread]
  refine ⟨next, fun depth hdepth => ?_, fun nodes rest' h => ?_⟩
  · rcases exists_eq_succ_of_enough hdepth with ⟨depth, rfl⟩
    have hless : enough tokens (nextIndex tokens index rest) ≤ depth := by
      unfold enough at hdepth ⊢
      omega
    rw [parseParametersAt, parseExpressionAt_of_agrees hagrees hdepth, hread]
    simp only [Option.bind_eq_bind, Option.bind_some, hothers depth hless]
    cases parseParameters rest with
    | error e => rfl
    | ok r => rfl
  · rcases bind_eq_ok_iff.mp h with ⟨⟨others, rest''⟩, hparameters, h⟩
    cases h
    exact hnext others _ hparameters

end

/-- At every index, reading by index agrees with reading what stands from there on. -/
theorem agreesFrom (tokens : List Token) (index : Nat) : AgreesFrom tokens index := by
  induction hn : tokens.length - index using Nat.strong_induction_on generalizing index with
  | _ n ih =>
    have hagrees : ∀ j, index < j → j ≤ tokens.length → AgreesFrom tokens j :=
      fun j hj hle => ih _ (by omega) j rfl
    rcases hread : parseExpression (tokens.drop index) with ⟨e | _ | node, rest⟩
    · exact agreesFrom_of_error hagrees hread
    · exact agreesFrom_of_none hagrees hread
    · exact agreesFrom_of_some hagrees hread

/-- An expression is read by index as it is read from the tokens to come, and moves the index by as
many tokens as are used up. -/
theorem parseExpressionAt_eq (hdepth : enough tokens index ≤ depth) :
    parseExpressionAt tokens depth index
      = some ((parseExpression (tokens.drop index)).1,
          nextIndex tokens index (parseExpression (tokens.drop index)).2) :=
  parseExpressionAt_of_agrees (fun j _ _ => agreesFrom tokens j) (by omega)

/-! ## Where reading by index stops -/

/-- The index is behind all tokens or on one that closes a list. -/
def StopsAt (tokens : List Token) (index : Nat) : Prop :=
  tokens.length ≤ index ∨ ∃ t, tokens[index]? = some t ∧ t.kind.closesList = true

/-- Where the next token closes, or where there is none, a list of expressions may stop. -/
theorem stopsAt_of_drop (hdrop : tokens.drop index = rest)
    (hclose : ∀ t ∈ rest.head?, t.kind.closesList = true) : StopsAt tokens index := by
  rw [← hdrop, List.head?_drop] at hclose
  cases ht : tokens[index]? with
  | none => exact .inl (List.getElem?_eq_none_iff.mp ht)
  | some t => exact .inr ⟨t, ht, hclose t ht⟩

/-- An expression ends where a list may end, or behind a comma. -/
theorem stopsAt_of_parseExpression {node : Node}
    (h : parseExpression (tokens.drop index) = (.ok (some node), rest)) :
    StopsAt tokens (nextIndex tokens index rest) ∨
      ∃ c, tokens[nextIndex tokens index rest - 1]? = some c ∧ c.kind = .comma := by
  have hrest := suffix_of_parseExpression h
  rcases parseExpression_eq_some_iff.mp h with ⟨-, slot, unread, place, hscan, -, rfl⟩
  have hends := endsExpression_of_scan hscan
  have hunread := suffix_of_scan hscan
  cases unread with
  | nil => exact .inl (stopsAt_of_drop (drop_nextIndex hrest) (by simp [dropComma]))
  | cons c cs =>
    by_cases hcomma : c.kind = .comma
    · have hbefore : nextIndex tokens index (dropComma (c :: cs)) - 1
          = nextIndex tokens index (c :: cs) := by
        have hlength := hunread.length_le
        rw [dropComma, if_pos hcomma, nextIndex, nextIndex]
        rw [List.length_cons] at hlength ⊢
        omega
      refine .inr ⟨c, ?_, hcomma⟩
      rw [hbefore, ← List.head?_drop, drop_nextIndex hunread]
      rfl
    · refine .inl (stopsAt_of_drop (drop_nextIndex hrest) ?_)
      have hclose : c.kind.closesList = true := hends.resolve_left hcomma
      simpa [dropComma, hcomma] using hclose

/-- A list of expressions ends where none starts. -/
theorem closesList_of_parseParameters {nodes : List Node}
    (h : parseParameters tokens = .ok (nodes, rest)) :
    ∀ t ∈ rest.head?, t.kind.closesList = true := by
  fun_induction parseParameters tokens generalizing nodes rest with
  | case1 tokens e rest' hread => cases h
  | case2 tokens rest' hread =>
    cases h
    obtain ⟨rfl, hclose⟩ := eq_of_parseExpression_none hread
    exact hclose
  | case3 tokens node rest' hread ih =>
    rcases bind_eq_ok_iff.mp h with ⟨⟨others, rest''⟩, hothers, h⟩
    cases h
    exact ih hothers

/-- Reading comes to an outcome if it does so with every depth that is large enough. -/
def ComesTo {α : Type} (read : Nat → Option α) (outcome : α) : Prop :=
  ∃ least, ∀ depth, least ≤ depth → read depth = some outcome

/-- What all large depths agree on is one outcome. -/
theorem ComesTo.unique {α : Type} {read : Nat → Option α} {a b : α} (ha : ComesTo read a)
    (hb : ComesTo read b) : a = b := by
  rcases ha with ⟨m, ha⟩
  rcases hb with ⟨n, hb⟩
  have hsame : some a = some b :=
    (ha (max m n) (Nat.le_max_left m n)).symm.trans (hb (max m n) (Nat.le_max_right m n))
  exact Option.some.inj hsame

/-- Reading one expression comes to an end.  If there is one, the index moves on, up to the end of
the tokens at most, and stops there, on a closing token or right behind a comma; if there is none,
the index stays, at the end or on a closing token.  Reading a list of expressions comes to an end
too, with no more of them than there are tokens to come, and it stops at the end or on a closing
token. -/
theorem reading_advances_and_ends (tokens : List Token) (index : Nat) :
    (∃ outcome next, ComesTo (parseExpressionAt tokens · index) (outcome, next) ∧
      (∀ node, outcome = .ok (some node) → index < next ∧ next ≤ tokens.length ∧
        (StopsAt tokens next ∨ ∃ c, tokens[next - 1]? = some c ∧ c.kind = .comma)) ∧
      (outcome = .ok none → next = index ∧ StopsAt tokens index)) ∧
    ∃ outcome next, ComesTo (parseParametersAt tokens · index) (outcome, next) ∧
      ∀ nodes, outcome = .ok nodes →
        nodes.length ≤ tokens.length - index ∧ StopsAt tokens next := by
  constructor
  · -- By agreement, the outcome is the one of reading what stands from the index on.
    refine ⟨_, _, ⟨enough tokens index, fun depth => parseExpressionAt_eq⟩, ?_, ?_⟩
    · intro node houtcome
      rcases hread : parseExpression (tokens.drop index) with ⟨outcome, rest⟩
      rw [hread] at houtcome
      obtain rfl : outcome = .ok (some node) := houtcome
      have hbounds := nextIndex_bounds (parseExpression_length_lt hread)
      exact ⟨hbounds.1, hbounds.2, stopsAt_of_parseExpression hread⟩
    · intro houtcome
      rcases hread : parseExpression (tokens.drop index) with ⟨outcome, rest⟩
      rw [hread] at houtcome
      obtain rfl : outcome = .ok none := houtcome
      obtain ⟨rfl, hclose⟩ := eq_of_parseExpression_none hread
      exact ⟨nextIndex_drop, stopsAt_of_drop rfl hclose⟩
  · rcases agreesFrom tokens index with ⟨next, hread, hnext⟩
    refine ⟨_, next, ⟨enough tokens index, hread⟩, ?_⟩
    intro nodes houtcome
    rcases map_eq_ok_iff.mp houtcome with ⟨⟨nodes', rest⟩, hparameters, hnodes⟩
    obtain rfl : nodes' = nodes := hnodes
    have hlength := length_le_of_parseParameters hparameters
    rw [List.length_drop] at hlength
    have hclose := closesList_of_parseParameters hparameters
    exact ⟨by omega, stopsAt_of_drop (hnext _ _ hparameters) hclose⟩

/-- Of `1, ]` the first expression is read with its comma, up to the bracket. -/
theorem reading_advances_to_bracket :
    let tokens : List Token :=
      [⟨.int, some "1", .origin⟩, ⟨.comma, none, .origin⟩, ⟨.closeBracket, none, .origin⟩]
    ComesTo (parseExpressionAt tokens · 0) (.ok (some (.int 1)), 2) ∧ 0 < 2 ∧ 2 ≤ tokens.length ∧
      (StopsAt tokens 2 ∨ ∃ c, tokens[2 - 1]? = some c ∧ c.kind = .comma) := by
  intro tokens
  have hcomes : ComesTo (parseExpressionAt tokens · 0) (.ok (some (.int 1)), 2) :=
    ⟨enough tokens 0, fun depth hdepth => (parseExpressionAt_eq hdepth).trans rfl⟩
  rcases (reading_advances_and_ends tokens 0).1 with ⟨outcome, next, hread, hsome, -⟩
  obtain ⟨rfl, rfl⟩ := Prod.mk.inj (hread.unique hcomes)
  exact ⟨hcomes, hsome (.int 1) rfl⟩

end

/-! ## Tokens before the index -/

section

variable {p s : List Token} {depth : Nat}

/-- An outcome with its index moved up. -/
def moveIndex {α : Type} (n : Nat) (r : α × Nat) : α × Nat := (r.1, n + r.2)

/-- Reading `s` behind `p` is reading `s` alone, with all indexes moved up. -/
structure ReadsBehind (p s : List Token) (depth : Nat) : Prop where
  parameters (index : Nat) : parseParametersAt (p ++ s) depth (p.length + index)
    = (parseParametersAt s depth index).map (moveIndex p.length)
  expression (index : Nat) : parseExpressionAt (p ++ s) depth (p.length + index)
    = (parseExpressionAt s depth index).map (moveIndex p.length)
  /-- An expression that goes on has started before. -/
  goesOn (start i : Nat) (nodes : List Node) (pending : List Pending) (hi : i = start ∨ 0 < i) :
    readFrom (p ++ s) depth (p.length + start) (p.length + i) nodes pending
      = (readFrom s depth start i nodes pending).map (moveIndex p.length)
  nested (f : Frame) (i : Nat) : readNested (p ++ s) depth f (p.length + i)
    = (readNested s depth f i).map (Except.map (moveIndex p.length))

theorem lt_append_iff {i : Nat} : p.length + i < (p ++ s).length ↔ i < s.length := by
  rw [List.length_append]
  omega

/-- Behind other tokens, a token is found that many places further on. -/
theorem getElem_append_add {i : Nat} (h : i < s.length) (h' : p.length + i < (p ++ s).length) :
    (p ++ s)[p.length + i] = s[i] := by
  rw [List.getElem_append_right (Nat.le_add_right _ _)]
  simp only [Nat.add_sub_cancel_left]

/-- An expression looks back no further than to its start. -/
theorem previous?_append {start i : Nat} (hi : i = start ∨ 0 < i) :
    previous? (p ++ s) (p.length + start) (p.length + i) = previous? s start i := by
  unfold previous?
  by_cases hstart : i = start
  · rw [if_pos hstart, if_pos (by rw [hstart])]
  · have hsub : p.length + i - 1 = p.length + (i - 1) := by omega
    rw [if_neg hstart, if_neg (by omega), hsub, List.getElem?_append_right (Nat.le_add_right _ _),
      Nat.add_sub_cancel_left]

section

variable (h : ReadsBehind p s depth)

include h

/-- If reading behind other tokens only moves the index at one depth, it does so one deeper, for
lists of expressions. -/
theorem ReadsBehind.parametersDeeper (index : Nat) :
    parseParametersAt (p ++ s) (depth + 1) (p.length + index)
      = (parseParametersAt s (depth + 1) index).map (moveIndex p.length) := by
  rw [parseParametersAt, parseParametersAt, h.expression]
  rcases parseExpressionAt s depth index with _ | ⟨e | _ | node, next⟩
  · rfl
  · rfl
  · rfl
  · have hothers := h.parameters next
    simp only [Option.map_some, moveIndex, Option.bind_eq_bind, Option.bind_some, hothers]
    rcases parseParametersAt s depth next with _ | ⟨outcome, last⟩
    · rfl
    · rfl

/-- The same for a single expression. -/
theorem ReadsBehind.expressionDeeper (index : Nat) :
    parseExpressionAt (p ++ s) (depth + 1) (p.length + index)
      = (parseExpressionAt s (depth + 1) index).map (moveIndex p.length) := by
  rw [parseExpressionAt, parseExpressionAt]
  by_cases hlt : index < s.length
  · have hlt' := (lt_append_iff (p := p)).mpr hlt
    rw [dif_pos hlt, dif_pos hlt', getElem_append_add hlt hlt']
    by_cases hclose : s[index].kind.closesList = true
    · rw [if_pos hclose, if_pos hclose]
      rfl
    · rw [if_neg hclose, if_neg hclose, h.goesOn index index [] [] (.inl rfl)]
      rcases readFrom s depth index index [] [] with _ | ⟨outcome, next⟩
      · rfl
      · rfl
  · have hlt' := (lt_append_iff (p := p)).not.mpr hlt
    rw [dif_neg hlt, dif_neg hlt']
    rfl

/-- The same for what is left of an expression that has been begun. -/
theorem ReadsBehind.goesOnDeeper (hs : s ≠ []) {start i : Nat} (nodes : List Node)
    (pending : List Pending) (hi : i = start ∨ 0 < i) :
    readFrom (p ++ s) (depth + 1) (p.length + start) (p.length + i) nodes pending
      = (readFrom s (depth + 1) start i nodes pending).map (moveIndex p.length) := by
  rw [readFrom, readFrom, previous?_append hi]
  -- Each token behind the first ones is the token at the moved index, and is treated alike.
  by_cases hlt : i < s.length
  · have hlt' := (lt_append_iff (p := p)).mpr hlt
    rw [dif_pos hlt, dif_pos hlt', getElem_append_add hlt hlt']
    by_cases hopen : opensFrame s[i].kind = true
    · simp only [hopen, if_true, h.nested]
      rcases readNested s depth (Frame.ofToken ⟨nodes, pending, previous? s start i⟩ s[i]) i with
        _ | ⟨e | ⟨next, close⟩⟩
      · rfl
      · rfl
      · exact h.goesOn start (close + 1) _ _ (.inr (Nat.succ_pos close))
    · simp only [hopen, if_false, Bool.false_eq_true]
      by_cases hcomma : s[i].kind = .comma
      · simp only [hcomma, if_true]
        rfl
      · by_cases hclose : s[i].kind.closesList = true
        · simp only [hcomma, hclose, if_true, if_false]
          rfl
        · simp only [hcomma, hclose, if_false, Bool.false_eq_true]
          cases Slot.read ⟨nodes, pending, previous? s start i⟩ s[i] with
          | error e => rfl
          | ok next => exact h.goesOn start (i + 1) _ _ (.inr (Nat.succ_pos i))
  · have hlt' := (lt_append_iff (p := p)).not.mpr hlt
    rw [dif_neg hlt, dif_neg hlt', List.length_append,
      ← endSpan_of_suffix hs (List.suffix_append p s)]
    rfl

/-- The same for what is inside a bracket. -/
theorem ReadsBehind.nestedDeeper (f : Frame) (i : Nat) :
    readNested (p ++ s) (depth + 1) f (p.length + i)
      = (readNested s (depth + 1) f i).map (Except.map (moveIndex p.length)) := by
  rw [readNested, readNested, Nat.add_assoc, h.parameters]
  rcases parseParametersAt s depth (i + 1) with _ | ⟨e | items, close⟩
  · rfl
  · rfl
  · simp only [Option.map_some, moveIndex, Option.bind_eq_bind, Option.bind_some]
    by_cases hlt : close < s.length
    · have hlt' := (lt_append_iff (p := p)).mpr hlt
      rw [dif_pos hlt, dif_pos hlt', getElem_append_add hlt hlt']
      by_cases hcloser : s[close].kind = f.closer
      · rw [if_pos hcloser, if_pos hcloser]
        rfl
      · rw [if_neg hcloser, if_neg hcloser]
        rfl
    · have hlt' := (lt_append_iff (p := p)).not.mpr hlt
      rw [dif_neg hlt, dif_neg hlt']
      rfl

end

/-- Each call and each round does the same on `p ++ s` as on `s`. -/
theorem readsBehind (hs : s ≠ []) (depth : Nat) : ReadsBehind p s depth := by
  induction depth with
  | zero => exact ⟨fun _ => rfl, fun _ => rfl, fun _ _ _ _ _ => rfl, fun _ _ => rfl⟩
  | succ depth ih =>
    exact ⟨ih.parametersDeeper, ih.expressionDeeper, fun _ _ => ih.goesOnDeeper hs, ih.nestedDeeper⟩

end

/-! ## The colon -/

/-- An instruction is read the same without the colon behind its name. -/
theorem parseInstruction_colon {f c : Token} {r : List Token} (hc : c.kind = .colon)
    (hr : ∀ d ∈ r.head?, d.kind ≠ .colon) :
    parseInstruction (f :: c :: r) = parseInstruction (f :: r) := by
  cases r with
  | nil =>
    have hnone : parseParameters [] = .ok ([], []) := parseParameters_of_closesList (by simp)
    simp only [parseInstruction, hc, hnone, if_true]
    rfl
  | cons d ds =>
    have hd : d.kind ≠ .colon := hr d rfl
    have hend : endSpan (f :: c :: d :: ds) = endSpan (f :: d :: ds) := by
      have hne : d :: ds ≠ [] := List.cons_ne_nil d ds
      have hsuffix : d :: ds <:+ f :: d :: ds := List.suffix_cons f _
      rw [← endSpan_of_suffix hne hsuffix, ← endSpan_of_suffix hne]
      exact (List.suffix_cons c _).trans (List.suffix_cons f _)
    simp only [parseInstruction, hc, hd, hend, if_true, if_false]

/-- Reading at the start of `s` comes to the same, whatever tokens stand before it: with every depth
the same outcome, where all indexes are moved up by the number of those tokens.  So the colon behind
the name of an instruction may be left out. -/
theorem reading_depends_on_tokens_to_come :
    (∀ p s : List Token, s ≠ [] → ∀ depth,
      parseExpressionAt (p ++ s) depth p.length
          = (parseExpressionAt s depth 0).map (moveIndex p.length) ∧
        parseParametersAt (p ++ s) depth p.length
          = (parseParametersAt s depth 0).map (moveIndex p.length)) ∧
    ∀ (f c : Token) (r : List Token), c.kind = .colon → (∀ d ∈ r.head?, d.kind ≠ .colon) →
      parseInstruction (f :: c :: r) = parseInstruction (f :: r) := by
  refine ⟨fun p s hs depth => ?_, fun f c r hc hr => parseInstruction_colon hc hr⟩
  have hbehind : ReadsBehind p s depth := readsBehind hs depth
  exact ⟨hbehind.expression 0, hbehind.parameters 0⟩

/-- Behind `x` a `+` in front of `1` is a sign if reading starts there; and `x: 1` is `x 1`. -/
theorem reading_starts_at_sign :
    parseExpressionAt [⟨.identifier, some "x", .origin⟩, ⟨.add, none, .origin⟩,
        ⟨.int, some "1", .origin⟩] 8 1 = some (.ok (some (.apply .pos [.int 1])), 3) ∧
      parseInstruction [⟨.identifier, some "x", .origin⟩, ⟨.colon, none, .origin⟩,
          ⟨.int, some "1", .origin⟩]
        = parseInstruction [⟨.identifier, some "x", .origin⟩, ⟨.int, some "1", .origin⟩] := by
  have hsign := (reading_depends_on_tokens_to_come.1 [⟨.identifier, some "x", .origin⟩]
    [⟨.add, none, .origin⟩, ⟨.int, some "1", .origin⟩] (by simp) 8).1
  have halone : parseExpressionAt [⟨.add, none, .origin⟩, ⟨.int, some "1", .origin⟩] 8 0
      = some (.ok (some (.apply .pos [.int 1])), 2) := by
    rfl
  rw [halone] at hsign
  exact ⟨hsign, reading_depends_on_tokens_to_come.2 _ _ _ rfl (by simp)⟩

end Edict.Parser
