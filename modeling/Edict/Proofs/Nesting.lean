import Edict.Proofs.Joining
import Edict.Proofs.Reading
import Edict.Proofs.Tally

namespace Edict.Parser

/-! # Brackets hold lists of expressions

Reading keeps the brackets that are open in frames.  What is read outside them is read the same
with frames around it (`scan_append_frames`), and so what stands behind a bracket is read as a list
of expressions up to the token that closes it.

Main statement: `scan_bracket`.
-/

section

variable {stop : Span} {slot slot' : Slot} {frames : List Frame} {tokens rest : List Token}

/-- With frames around it, an expression ends where it ends without them, and reading goes on in
the frames. -/
theorem scan_append_frames (outer : List Frame) :
    scan stop slot (frames ++ outer) tokens = (do
      let (slot, rest) ← scan stop slot frames tokens
      scan stop slot outer rest) := by
  -- Only an unclosed or wrongly closed bracket looks at the frames, and then at the innermost
  -- alone.
  fun_induction scan stop slot frames tokens with
  | case1 slot => rfl
  | case2 slot f fs =>
    rw [List.cons_append, scan]
    cases f.close slot stop with
    | error e => rfl
    | ok items => rfl
  | case3 slot frames t ts hopen ih =>
    rw [scan.eq_def, ← ih]
    simp only [hopen, if_true, List.cons_append]
  | case4 slot t ts hopen hcomma => rfl
  | case5 slot t ts hopen hcomma f fs ih =>
    rw [List.cons_append, scan.eq_def]
    simp only [hcomma, if_true]
    cases hfinish : slot.finish t.span with
    | error e => rfl
    | ok node => exact ih node
  | case6 slot t ts hopen hcomma hclose => rfl
  | case7 slot t ts hopen hcomma hclose f fs ih =>
    rw [List.cons_append, scan.eq_def]
    simp only [hopen, hcomma, hclose, if_true, if_false]
    cases hitems : f.close slot t.span with
    | error e => rfl
    | ok items =>
      by_cases hcloser : t.kind = f.closer
      · simp only [hcloser, if_true]
        exact ih items
      · simp only [hcloser, if_false]
        rfl
  | case8 slot frames t ts hopen hcomma hclose ih =>
    rw [scan.eq_def]
    simp only [hopen, hcomma, hclose, if_false]
    cases hread : slot.read t with
    | error e => rfl
    | ok next => exact ih next

/-- What has been read in a bracket, or outside all of them, has been started. -/
theorem isStarted_of_scan (hslot : frames ≠ [] ∨ slot.isStarted = true)
    (h : scan stop slot frames tokens = .ok (slot', rest)) : slot'.isStarted = true := by
  fun_induction scan stop slot frames tokens generalizing slot' rest with
  | case1 slot =>
    cases h
    simpa using hslot
  | case2 slot f fs =>
    rcases bind_eq_ok_iff.mp h with ⟨_, _, h⟩
    cases h
  | case3 slot frames t ts hopen ih => exact ih (.inl (List.cons_ne_nil _ _)) h
  | case4 slot t ts hopen hcomma =>
    cases h
    simpa using hslot
  | case5 slot t ts hopen hcomma f fs ih =>
    rcases bind_eq_ok_iff.mp h with ⟨node, -, h⟩
    exact ih node (.inl (List.cons_ne_nil _ _)) h
  | case6 slot t ts hopen hcomma hclose =>
    cases h
    simpa using hslot
  | case7 slot t ts hopen hcomma hclose f fs ih =>
    rcases bind_eq_ok_iff.mp h with ⟨items, -, h⟩
    split at h
    · exact ih items (.inr rfl) h
    · cases h
  -- The token that was just read is the last one.
  | case8 slot frames t ts hopen hcomma hclose ih =>
    rcases bind_eq_ok_iff.mp h with ⟨next, hnext, h⟩
    refine ih next (.inr ?_) h
    rw [Slot.isStarted, (added_of_read hnext).last]
    rfl

/-- A place for an expression is left empty just in front of a comma or a closing token. -/
theorem isStarted_of_scan_empty {t : Token} {ts : List Token} (hcomma : t.kind ≠ .comma)
    (hclose : t.kind.closesList = false)
    (h : scan stop .empty [] (t :: ts) = .ok (slot', rest)) : slot'.isStarted = true := by
  rw [scan.eq_def] at h
  simp only [hcomma, hclose, if_false, Bool.false_eq_true] at h
  split at h
  · exact isStarted_of_scan (.inl (List.cons_ne_nil _ _)) h
  · rcases bind_eq_ok_iff.mp h with ⟨next, hnext, h⟩
    refine isStarted_of_scan (.inr ?_) h
    rw [Slot.isStarted, (added_of_read hnext).last]
    rfl

end

/-! ## The end of a bracket -/

section

variable {stop : Span} {tokens : List Token}

/-- What becomes of the bracket when `nodes` have been read in it and `tokens` come next. -/
def Frame.complete (f : Frame) (nodes : List Node) :
    List Token → Except ParseError (Slot × List Token)
  | [] => .error f.unclosed
  | t :: ts =>
    if t.kind = f.closer then .ok (f.resume (nodes.reverse ++ f.items) t, ts)
    else .error f.unclosed

/-- An expression in the bracket is the first of those that are still to be read in it. -/
theorem complete_cons (f : Frame) (node : Node) (nodes : List Node) (tokens : List Token) :
    ({ f with items := node :: f.items } : Frame).complete nodes tokens
      = f.complete (node :: nodes) tokens := by
  cases tokens with
  | nil => rfl
  | cons t ts =>
    simp only [Frame.complete, List.reverse_cons, List.append_assoc, List.singleton_append]
    rfl

/-- Where no expression starts, the bracket ends. -/
theorem scan_frame_of_closesList (f : Frame) (frames : List Frame)
    (hclose : ∀ t ∈ tokens.head?, t.kind.closesList = true) :
    scan stop .empty (f :: frames) tokens = (do
      let (slot, rest) ← f.complete [] tokens
      scan stop slot frames rest) := by
  cases tokens with
  | nil => rfl
  | cons t ts =>
    have hclose : t.kind.closesList = true := hclose t rfl
    rw [scan.eq_def]
    simp only [ne_comma_of_closesList hclose, hclose, opensFrame_of_closesList hclose, if_true,
      if_false, Bool.false_eq_true, Frame.complete]
    by_cases hcloser : t.kind = f.closer
    · simp only [if_pos hcloser]
      rfl
    · simp only [if_neg hcloser]
      rfl

end

/-! ## The end of an expression -/

section

variable {stop : Span} {slot : Slot} {tokens : List Token}

/-- The place of the token that ends an expression, or behind all tokens. -/
def endPlace (stop : Span) : List Token → Span
  | [] => stop
  | t :: _ => t.span

/-- An expression that starts with a token is what the slot holds where reading stops; a comma there
is used up. -/
theorem parseExpression_cons {t : Token} (hclose : t.kind.closesList = false) (ts : List Token) :
    parseExpression (t :: ts) = match scan (endSpan (t :: ts)) .empty [] (t :: ts) with
      | .error e => (.error e, t :: ts)
      | .ok (slot, unread) =>
        ((slot.finish (endPlace (endSpan (t :: ts)) unread)).map some, dropComma unread) := by
  rw [parseExpression, hclose]
  rcases scan (endSpan (t :: ts)) .empty [] (t :: ts) with e | ⟨slot, _ | ⟨c, cs⟩⟩
  · rfl
  · rfl
  · rfl

/-- A list of expressions goes on behind its first expression. -/
theorem parseParameters_cons {t : Token} {ts : List Token} (hclose : t.kind.closesList = false) :
    parseParameters (t :: ts) = (do
      let (slot, unread) ← scan (endSpan (t :: ts)) .empty [] (t :: ts)
      let node ← slot.finish (endPlace (endSpan (t :: ts)) unread)
      let (nodes, rest) ← parseParameters (dropComma unread)
      return (node :: nodes, rest)) := by
  have hread := parseExpression_cons hclose ts
  rcases hscan : scan (endSpan (t :: ts)) .empty [] (t :: ts) with e | ⟨slot, unread⟩
  · rw [hscan] at hread
    rw [parseParameters_of_error hread]
    rfl
  · rw [hscan] at hread
    cases hfinish : slot.finish (endPlace (endSpan (t :: ts)) unread) with
    | error e =>
      simp only [hfinish] at hread
      rw [parseParameters_of_error hread]
      simp only [hfinish, bind, Except.bind]
    | ok node =>
      simp only [hfinish] at hread
      rw [parseParameters_of_some hread]
      simp only [hfinish, bind, Except.bind]

/-- In a bracket the expression is finished there, and the next one starts behind the comma. -/
theorem scan_frame_of_endsExpression (f : Frame) (frames : List Frame)
    (hend : endsExpression tokens)
    (hslot : slot.isStarted = true ∨ ∃ c ∈ tokens.head?, c.kind = .comma) :
    scan stop slot (f :: frames) tokens = (do
      let node ← slot.finish (endPlace stop tokens)
      scan stop .empty ({ f with items := node :: f.items } :: frames) (dropComma tokens)) := by
  cases tokens with
  | nil =>
    have hstarted : slot.isStarted = true := by simpa using hslot
    rw [scan, Frame.close, hstarted, endPlace]
    cases slot.finish stop with
    | error e => rfl
    | ok node => rfl
  | cons t ts =>
    by_cases hcomma : t.kind = .comma
    · rw [scan.eq_def]
      simp only [hcomma, dropComma, endPlace, if_true]
      rfl
    · have hclose : t.kind.closesList = true := hend.resolve_left hcomma
      have hstarted : slot.isStarted = true := by simpa [hcomma] using hslot
      have hdrop : dropComma (t :: ts) = t :: ts := if_neg hcomma
      rw [scan.eq_def, hdrop]
      simp only [hcomma, hclose, opensFrame_of_closesList hclose, endPlace, Frame.close, hstarted,
        if_true, if_false, Bool.false_eq_true]
      cases slot.finish t.span with
      | error e => rfl
      | ok node =>
        -- Here the bracket is closed, with or without the token that closes it.
        refine Eq.trans ?_ (scan_frame_of_closesList _ frames (by simpa using hclose)).symm
        rw [complete_cons, Frame.complete]
        by_cases hcloser : t.kind = f.closer
        · rw [if_pos hcloser]
          exact if_pos hcloser
        · rw [if_neg hcloser]
          exact if_neg hcloser

end

/-! ## Brackets -/

section

variable {stop : Span} {tokens : List Token}

/-- The first expression in a bracket is read as it is outside of it. -/
theorem scan_frame_cons {t : Token} {ts : List Token} (f : Frame) (frames : List Frame)
    (hclose : t.kind.closesList = false) :
    scan stop .empty (f :: frames) (t :: ts) = (do
      let (slot, unread) ← scan stop .empty [] (t :: ts)
      let node ← slot.finish (endPlace stop unread)
      scan stop .empty ({ f with items := node :: f.items } :: frames) (dropComma unread)) := by
  refine (@scan_append_frames stop .empty [] (t :: ts) (f :: frames)).trans ?_
  cases hscan : scan stop .empty [] (t :: ts) with
  | error e => rfl
  | ok r =>
    refine scan_frame_of_endsExpression f frames (endsExpression_of_scan hscan) ?_
    by_cases hcomma : t.kind = .comma
    · have hends : endsExpression (t :: ts) := .inl hcomma
      rw [scan_of_endsExpression hends] at hscan
      cases hscan
      exact .inr ⟨t, rfl, hcomma⟩
    · exact .inl (isStarted_of_scan_empty hcomma hclose hscan)

/-- What becomes of the bracket in front of `tokens`: a list of expressions is in it. -/
def Frame.fill (f : Frame) (tokens : List Token) : Except ParseError (Slot × List Token) := do
  let (nodes, rest) ← parseParameters tokens
  f.complete nodes rest

/-- What stands behind an opening bracket is read as a list of expressions; the token behind them
closes the bracket, or it is not closed. -/
theorem scan_bracket (f : Frame) (frames : List Frame)
    (hstop : tokens ≠ [] → endSpan tokens = stop) :
    scan stop .empty (f :: frames) tokens = (do
      let (slot, rest) ← f.fill tokens
      scan stop slot frames rest) := by
  unfold Frame.fill
  rw [bind_assoc]
  -- The list goes on where its first expression has ended, so the induction is on the number of
  -- tokens, and the frame has that expression then.
  induction hlength : tokens.length using Nat.strong_induction_on generalizing tokens f with
  | _ n ih =>
    cases tokens with
    | nil =>
      rw [parseParameters_of_closesList (by simp)]
      exact scan_frame_of_closesList f frames (by simp)
    | cons t ts =>
      cases hclose : t.kind.closesList with
      | true =>
        rw [parseParameters_of_closesList (by simpa using hclose)]
        exact scan_frame_of_closesList f frames (by simpa using hclose)
      | false =>
        have hread := parseExpression_cons hclose ts
        rw [scan_frame_cons f frames hclose, parseParameters_cons hclose]
        rw [hstop (List.cons_ne_nil t ts)] at hread ⊢
        rcases hscan : scan stop .empty [] (t :: ts) with e | ⟨slot, unread⟩
        · rfl
        · cases hfinish : slot.finish (endPlace stop unread) with
          | error e => simp only [hfinish, bind, Except.bind]
          | ok node =>
            simp only [hscan, hfinish] at hread
            have hlt := parseExpression_length_lt hread
            have hstop' : dropComma unread ≠ [] → endSpan (dropComma unread) = stop := fun hne =>
              (endSpan_of_suffix hne (suffix_of_parseExpression hread)).trans
                (hstop (List.cons_ne_nil t ts))
            have hrest := ih _ (hlength ▸ hlt) { f with items := node :: f.items } hstop' rfl
            simp only [hfinish, bind, Except.bind]
            rw [hrest]
            cases parseParameters (dropComma unread) with
            | error e => rfl
            | ok r => simp only [bind, Except.bind, complete_cons, pure, Except.pure]

end

end Edict.Parser
