import Edict.Proofs.Patterns

namespace Edict

namespace Lexer

/-! # Escaped characters

In a string a backslash escapes the character after it, so that whether a character is escaped
depends on how many backslashes stand right before it: it is if their number is odd.  This tells
where a string ends, what it holds and why it does not end, without a word on reading it from left
to right.

Main statements:

* `escaped_append_iff`: behind a character that is not escaped, counting starts anew;
* `stringBody_eq_error_iff`: a string is not read just if all its quotes are escaped, and what is
  said of it depends on whether the end of the text is;
* `unescape_eq_dropEscapes`: a string holds what is left of it without the backslashes that escape.
-/

/-- How many backslashes stand at the end. -/
def backslashes (cs : List Char) : Nat := (cs.reverse.takeWhile (· = '\\')).length

/-- What stands behind `cs` in a string is escaped. -/
def Escaped (cs : List Char) : Prop := backslashes cs % 2 = 1

instance (cs : List Char) : Decidable (Escaped cs) :=
  inferInstanceAs (Decidable (backslashes cs % 2 = 1))

/-- Nothing escapes the first character. -/
theorem not_escaped_nil : ¬Escaped [] := by decide

/-- A character escapes what stands behind it if it is a backslash that is not escaped itself. -/
theorem escaped_concat_iff {cs : List Char} {c : Char} :
    Escaped (cs ++ [c]) ↔ c = '\\' ∧ ¬Escaped cs := by
  have hcount : backslashes (cs ++ [c]) = if c = '\\' then backslashes cs + 1 else 0 := by
    rw [backslashes, List.reverse_concat, List.takeWhile_cons]
    by_cases hc : c = '\\'
    · simp [hc, backslashes]
    · simp [hc]
  rw [Escaped, Escaped, hcount]
  split
  · next hc =>
    simp only [hc, true_and]
    omega
  · next hc => simp [hc]

/-- Behind characters that leave nothing escaped, the ones before them can be left out. -/
theorem escaped_append_iff {front : List Char} (h : ¬Escaped front) (cs : List Char) :
    Escaped (front ++ cs) ↔ Escaped cs := by
  induction cs using List.reverseRecOn with
  | nil => simp [h, not_escaped_nil]
  | append_singleton cs c ih => rw [← List.append_assoc, escaped_concat_iff, escaped_concat_iff, ih]

theorem not_escaped_singleton {c : Char} (h : c ≠ '\\') : ¬Escaped [c] := by
  intro hescaped
  have hconcat : Escaped ([] ++ [c]) := hescaped
  exact h (escaped_concat_iff.mp hconcat).1

/-- What stands behind an escaped character is not escaped. -/
theorem not_escaped_pair (c : Char) : ¬Escaped ['\\', c] := by
  intro hescaped
  have hbackslash : Escaped ['\\'] := by decide
  have hconcat : Escaped (['\\'] ++ [c]) := hescaped
  exact (escaped_concat_iff.mp hconcat).2 hbackslash

/-! ## Closing quotes -/

/-- Every `quote` in `cs` is escaped. -/
def NeverCloses (quote : Char) (cs : List Char) : Prop :=
  ∀ before after, cs = before ++ quote :: after → Escaped before

/-- The last character is a backslash that is not escaped. -/
def EndsInEscape (cs : List Char) : Prop := ∃ before, cs = before ++ ['\\'] ∧ ¬Escaped before

/-- Reading ends in an escape just if a backslash is left over at the end. -/
theorem endsInEscape_iff {cs : List Char} : EndsInEscape cs ↔ Escaped cs := by
  constructor
  · rintro ⟨before, rfl, hbefore⟩
    exact escaped_concat_iff.mpr ⟨rfl, hbefore⟩
  · intro h
    rcases List.eq_nil_or_concat' cs with rfl | ⟨before, c, rfl⟩
    · exact absurd h not_escaped_nil
    · rcases escaped_concat_iff.mp h with ⟨rfl, hbefore⟩
      exact ⟨before, rfl, hbefore⟩

section

variable {quote : Char} {front cs : List Char}

theorem neverCloses_nil : NeverCloses quote [] := by
  intro before after h
  simp at h

/-- In front of a text that does not close lies nothing that closes, if nothing is left escaped. -/
theorem neverCloses_append_iff (hfront : NeverCloses quote front) (h : ¬Escaped front) :
    NeverCloses quote (front ++ cs) ↔ NeverCloses quote cs := by
  constructor
  · rintro hcloses before after rfl
    have hbehind := hcloses (front ++ before) after (List.append_assoc _ _ _).symm
    exact (escaped_append_iff h before).mp hbehind
  · intro hcloses before after hsplit
    -- A quote stands behind the front, where it is escaped as it is without it, or in the front.
    rcases List.append_eq_append_iff.mp hsplit with ⟨between, rfl, hcs⟩ | ⟨between, hbefore, hcs⟩
    · exact (escaped_append_iff h between).mpr (hcloses between after hcs)
    · cases between with
      | nil => exact absurd (hcloses [] after hcs.symm) not_escaped_nil
      | cons c between =>
        obtain ⟨rfl, -⟩ := List.cons_eq_cons.mp hcs
        exact hfront before between hbefore

theorem neverCloses_singleton {c : Char} (h : c ≠ quote) : NeverCloses quote [c] := by
  intro before after hsplit
  cases before with
  | nil => exact absurd (List.head_eq_of_cons_eq hsplit) h
  | cons d before => simp at hsplit

/-- A character behind a backslash closes nothing, be it the quote. -/
theorem neverCloses_pair (hquote : quote ≠ '\\') (c : Char) : NeverCloses quote ['\\', c] := by
  intro before after hsplit
  match before with
  | [] => exact absurd (List.head_eq_of_cons_eq hsplit).symm hquote
  | [d] =>
    obtain rfl := List.head_eq_of_cons_eq hsplit
    decide
  | _ :: _ :: before => simp at hsplit

/-- All quotes are escaped, and the error tells whether what would follow is escaped as well. -/
def Unclosed (quote : Char) (cs : List Char) (kind : LexErrorKind) : Prop :=
  NeverCloses quote cs ∧
    kind = if Escaped cs then .trailingEscape else .unterminatedString quote

/-- Text that closes nothing and ends in no escape may be left out in front. -/
theorem unclosed_append_iff {kind : LexErrorKind} (hfront : NeverCloses quote front)
    (h : ¬Escaped front) : Unclosed quote (front ++ cs) kind ↔ Unclosed quote cs kind := by
  simp only [Unclosed, neverCloses_append_iff hfront h, escaped_append_iff h]

/-- A string is not read just if all its quotes are escaped. -/
theorem stringBody_eq_error_iff (hquote : quote ≠ '\\') {kind : LexErrorKind} :
    stringBody quote cs = .error kind ↔ Unclosed quote cs kind := by
  fun_induction stringBody quote cs with
  | case1 => simp [Unclosed, neverCloses_nil, not_escaped_nil, eq_comm]
  | case2 =>
    have hescaped : Escaped ['\\'] := by decide
    simp [Unclosed, neverCloses_singleton hquote.symm, hescaped, eq_comm]
  | case3 c cs ih =>
    have hpair : Unclosed quote (['\\', c] ++ cs) kind ↔ Unclosed quote cs kind :=
      unclosed_append_iff (neverCloses_pair hquote c) (not_escaped_pair c)
    exact (bind_pure_eq_error_iff.trans ih).trans hpair.symm
  | case4 cs =>
    have hcloses : ¬NeverCloses quote (quote :: cs) := fun h => not_escaped_nil (h [] cs rfl)
    simp [Unclosed, hcloses]
  | case5 c cs hlast hescape hc ih =>
    have hne := ne_escape_of_cases hlast hescape
    have hsingle : Unclosed quote ([c] ++ cs) kind ↔ Unclosed quote cs kind :=
      unclosed_append_iff (neverCloses_singleton hc) (not_escaped_singleton hne)
    exact (bind_pure_eq_error_iff.trans ih).trans hsingle.symm

end

/-! ## Contents -/

/-- The characters of `cs`, which stand behind `before`, without the backslashes that are not
escaped. -/
def dropEscapesBehind (before : List Char) : List Char → List Char
  | [] => []
  | c :: cs =>
    if c = '\\' ∧ ¬Escaped before then dropEscapesBehind (before ++ [c]) cs
    else c :: dropEscapesBehind (before ++ [c]) cs

/-- The characters of a string without the backslashes that escape others. -/
def dropEscapes (cs : List Char) : List Char := dropEscapesBehind [] cs

/-- Escapes are dropped alike when they are told by the backslashes before, and when the text is
read from the front. -/
theorem dropEscapesBehind_eq_unescape {before : List Char} (h : ¬Escaped before)
    (cs : List Char) : dropEscapesBehind before cs = unescape cs := by
  fun_induction unescape cs generalizing before with
  | case1 c cs ih =>
    have hbackslash : Escaped (before ++ ['\\']) := escaped_concat_iff.mpr ⟨rfl, h⟩
    have hpair : ¬Escaped (before ++ ['\\'] ++ [c]) :=
      fun hescaped => (escaped_concat_iff.mp hescaped).2 hbackslash
    simp only [dropEscapesBehind, h, hbackslash, not_true, not_false_eq_true, and_self, and_false,
      if_true, if_false, ih hpair]
  | case2 => simp [dropEscapesBehind, h]
  | case3 c cs hescape hlast ih =>
    have hne := ne_escape_of_cases hlast hescape
    have hsingle : ¬Escaped (before ++ [c]) := fun hescaped => hne (escaped_concat_iff.mp hescaped).1
    simp only [dropEscapesBehind, hne, false_and, if_false, ih hsingle]
  | case4 => rfl

theorem unescape_eq_dropEscapes (cs : List Char) : unescape cs = dropEscapes cs :=
  (dropEscapesBehind_eq_unescape not_escaped_nil cs).symm

end Lexer

end Edict
