import Edict.Proofs.Escapes
import Edict.Proofs.Lookahead
import Edict.Proofs.Partition

namespace Edict

/-! # Where reading fails, and why

Reading fails at the first place where no token starts, and what stands before this place is read as
it is alone: the token in front of it was the longest there, and still is when nothing follows.
Why no token starts at a place can be told from the text that begins there (`Lexer.Fault`), without
a word on how tokens are read, and for every place there is at most one reason.

Main statements:

* `Lexer.readLexeme_eq_error_iff`: no token is read just where there is a fault, and that one is
  told;
* `Lexer.classify_of_readLexeme_error`: a second look at the text tells the same;
* `located_of_tokenize_error`: the first fault of a text is the one that is told, and the tokens
  before it are kept.
-/

namespace Lexer

/-! ## Faults -/

/-- Of all that `l` allows at the front of `text`, `run` is the longest. -/
structure LongestFront (l : Language Char) (text run : List Char) : Prop where
  mem : run ∈ l
  front : run <+: text
  longest : ∀ other ∈ l, other <+: text → other.length ≤ run.length

/-- Why no token starts at the front of `text`, and the characters at fault. -/
inductive Fault (text : List Char) : LexErrorKind → List Char → Prop
  /-- A number with a second point starts there.  At fault is all that can be taken for it. -/
  | malformedNumber {run : List Char}
      (hrun : LongestFront Pattern.malformed.language text run) :
      Fault text (.malformedNumber (String.ofList run)) run
  /-- A string starts there that no quote closes, and it ends with a backslash that escapes nothing.
  -/
  | trailingEscape {quote : Char} {body : List Char} (htext : text = quote :: body)
      (hquote : isQuote quote = true) (hcloses : NeverCloses quote body)
      (hend : EndsInEscape body) : Fault text .trailingEscape text
  /-- A string starts there that no quote closes, and it does not end so. -/
  | unterminatedString {quote : Char} {body : List Char} (htext : text = quote :: body)
      (hquote : isQuote quote = true) (hcloses : NeverCloses quote body)
      (hend : ¬EndsInEscape body) : Fault text (.unterminatedString quote) text
  /-- Nothing that a pattern allows starts with the character. -/
  | unrecognizedCharacter {c : Char} {cs : List Char} (htext : text = c :: cs)
      (hseparator : Text.isSeparator c = false) (hquote : isQuote c = false)
      (hnone : ∀ (p : Pattern) (word : List Char), word ∈ p.language → ¬word <+: text) :
      Fault text (.unrecognizedCharacter c) [c]

section

variable {c : Char} {cs culprit : List Char} {kind : LexErrorKind}

/-! ## What is told is at fault -/

/-- A number that is not read has two points or more. -/
theorem fault_of_readNumber_error (hc : isDigit c = true)
    (h : readNumber c cs = .error (kind, culprit)) : Fault (c :: cs) kind culprit := by
  have hmatch := longestMatch_number hc cs
  rw [ofPoints_of_readNumber_error hc h] at hmatch
  have hsplit : c :: cs.takeWhile isNumeric ++ cs.dropWhile isNumeric = c :: cs := by
    rw [List.cons_append, List.takeWhile_append_dropWhile]
  dsimp only [readNumber] at h
  split at h
  · cases h
  · cases h
  · cases h
    refine .malformedNumber ⟨hmatch.mem, ⟨_, hsplit⟩, fun other hother hfront => ?_⟩
    rw [← hsplit] at hfront
    exact hmatch.longest .malformed other hother hfront

/-- A string that is not read has no end, or ends in an escape. -/
theorem fault_of_readString_error (hc : isQuote c = true)
    (h : readString c cs = .error (kind, culprit)) : Fault (c :: cs) kind culprit := by
  unfold readString at h
  split at h
  · cases h
  · next kind hbody =>
    cases h
    rcases (stringBody_eq_error_iff (ne_escape_of_isQuote hc)).mp hbody with ⟨hcloses, rfl⟩
    split
    · next hend => exact .trailingEscape rfl hc hcloses (endsInEscape_iff.mpr hend)
    · next hend =>
      exact .unterminatedString rfl hc hcloses fun hends => hend (endsInEscape_iff.mp hends)

/-- What no symbol begins with is itself the culprit. -/
theorem readSymbol_eq_error (h : readSymbol c cs = .error (kind, culprit)) :
    kind = .unrecognizedCharacter c ∧ culprit = [c] := by
  unfold readSymbol at h
  split at h
  · cases h
  · split at h
    · cases h
    · cases h
      exact ⟨rfl, rfl⟩

/-- Where nothing is read, one of the three faults is there. -/
theorem fault_of_readLexeme_error (hc : Text.isSeparator c = false)
    (h : readLexeme c cs = .error (kind, culprit)) : Fault (c :: cs) kind culprit := by
  unfold readLexeme at h
  split at h
  · next hdigit => exact fault_of_readNumber_error hdigit h
  · next hdigit =>
    split at h
    · cases h
    · next hstart =>
      split at h
      · next hquote => exact fault_of_readString_error hquote h
      · next hquote =>
        rw [Bool.not_eq_true] at hdigit hstart hquote
        obtain ⟨rfl, rfl⟩ := readSymbol_eq_error h
        refine .unrecognizedCharacter rfl hc hquote fun p word hword hfront => ?_
        exact readSymbol_ne_error hdigit hstart hquote hword hfront _ h

/-! ## What is at fault is told -/

theorem ofPoints_eq_malformed_iff {n : Nat} : Pattern.ofPoints n = .malformed ↔ 2 ≤ n := by
  match n with
  | 0 => simp [Pattern.ofPoints]
  | 1 => simp [Pattern.ofPoints]
  | n + 2 => simp [Pattern.ofPoints]

/-- The longest malformed number at the front is the run of digits and points there. -/
theorem eq_run_of_malformed {run : List Char}
    (h : LongestFront Pattern.malformed.language (c :: cs) run) :
    isDigit c = true ∧ run = c :: cs.takeWhile isNumeric ∧
      2 ≤ (cs.takeWhile isNumeric).count '.' := by
  rcases starts_of_front h.mem h.front with ⟨hdigit, ds, rfl, tail, rfl⟩
  rcases eq_ofPoints hdigit h.mem with ⟨hnumeric, hpoints⟩
  have htwo := ofPoints_eq_malformed_iff.mp hpoints.symm
  have htake : (ds ++ tail).takeWhile isNumeric = ds ++ tail.takeWhile isNumeric :=
    List.takeWhile_append_of_pos hnumeric.numeric
  have hmatch := longestMatch_number hdigit (ds ++ tail)
  rw [htake, List.count_append, ofPoints_eq_malformed_iff.mpr (by omega)] at hmatch
  -- The run goes no further than `ds`, as it would be a longer malformed number.
  have hrunFront : c :: (ds ++ tail.takeWhile isNumeric) <+: c :: (ds ++ tail) :=
    List.cons_prefix_cons.mpr ⟨rfl, (List.prefix_append_right_inj _).mpr (List.takeWhile_prefix _)⟩
  have hle := h.longest _ hmatch.mem hrunFront
  rw [List.length_cons, List.length_cons, List.length_append] at hle
  have hnil : tail.takeWhile isNumeric = [] := List.eq_nil_of_length_eq_zero (by omega)
  rw [htake, hnil, List.append_nil]
  exact ⟨hdigit, rfl, htwo⟩

/-- A number with two points or more is reported with all its digits and points. -/
theorem readLexeme_of_malformed {run : List Char}
    (h : LongestFront Pattern.malformed.language (c :: cs) run) :
    readLexeme c cs = .error (.malformedNumber (String.ofList run), run) := by
  rcases eq_run_of_malformed h with ⟨hdigit, rfl, htwo⟩
  rw [← count_points_cons hdigit] at htwo
  rw [readLexeme_of_isDigit hdigit]
  dsimp only [readNumber]
  split
  · omega
  · omega
  · rfl

/-- A character that no pattern starts with is told. -/
theorem readLexeme_of_unrecognized (hquote : isQuote c = false)
    (hnone : ∀ (p : Pattern) (word : List Char), word ∈ p.language → ¬word <+: c :: cs) :
    readLexeme c cs = .error (.unrecognizedCharacter c, [c]) := by
  have hfront : [c] <+: c :: cs := ⟨cs, rfl⟩
  have hdigit : isDigit c = false := by
    refine Bool.eq_false_of_not_eq_true fun hc => ?_
    exact hnone _ _ (mem_ofPoints hc ⟨by simp, rfl⟩) hfront
  have hstart : isWordStart c = false := by
    refine Bool.eq_false_of_not_eq_true fun hc => ?_
    exact hnone _ _ (mem_identifier_iff.mpr ⟨hc, by simp⟩) hfront
  rw [readLexeme_of_symbol hdigit hstart hquote]
  cases h : readSymbol c cs with
  | error e =>
    obtain ⟨hkind, hculprit⟩ := readSymbol_eq_error h
    exact congrArg Except.error (Prod.ext hkind hculprit)
  | ok lexeme =>
    have hmatch := longestMatch_symbol hdigit hstart hquote h
    have hsplit := (readSymbol_append h).1
    exact absurd ⟨_, hsplit⟩ (hnone _ _ hmatch.mem)

/-- No token is read just where there is a fault, and that one is told. -/
theorem readLexeme_eq_error_iff (hc : Text.isSeparator c = false) :
    readLexeme c cs = .error (kind, culprit) ↔ Fault (c :: cs) kind culprit := by
  refine ⟨fault_of_readLexeme_error hc, fun h => ?_⟩
  cases h with
  | malformedNumber hrun => exact readLexeme_of_malformed hrun
  | trailingEscape htext hquote hcloses hend =>
    cases htext
    have hbody := (stringBody_eq_error_iff (ne_escape_of_isQuote hquote)).mpr ⟨hcloses, rfl⟩
    rw [if_pos (endsInEscape_iff.mp hend)] at hbody
    rw [readLexeme_of_isQuote hquote, readString, hbody]
  | unterminatedString htext hquote hcloses hend =>
    cases htext
    have hbody := (stringBody_eq_error_iff (ne_escape_of_isQuote hquote)).mpr ⟨hcloses, rfl⟩
    rw [if_neg fun h => hend (endsInEscape_iff.mpr h)] at hbody
    rw [readLexeme_of_isQuote hquote, readString, hbody]
  | unrecognizedCharacter htext hseparator hquote hnone =>
    cases htext
    exact readLexeme_of_unrecognized hquote hnone

/-- What is at fault stands at the front. -/
theorem Fault.front {text : List Char} (h : Fault text kind culprit) : culprit <+: text := by
  cases h with
  | malformedNumber hrun => exact hrun.front
  | trailingEscape | unterminatedString => exact List.prefix_refl _
  | @unrecognizedCharacter c cs htext =>
    rw [htext]
    exact ⟨cs, rfl⟩

end

/-! ## A second look -/

/-- What is told of a string that is not closed, by going to the end of it once more. -/
def faultInString (quote : Char) : List Char → LexErrorKind
  | [] => .unterminatedString quote
  | ['\\'] => .trailingEscape
  | '\\' :: _ :: cs => faultInString quote cs
  | c :: cs => if c = quote then .unterminatedString quote else faultInString quote cs

/-- What is told of a text that starts at byte `start` with no token and no malformed number, by
looking at the text once more. -/
def classify (start : Nat) (text : List Char) : LexError :=
  let whole := Span.ofRange start (start + byteLength text)
  match text with
  | [] => ⟨.point whole.start, .unrecognizedCharacter '\x00'⟩
  | c :: cs =>
    if isQuote c then ⟨whole, faultInString c cs⟩
    else ⟨.ofRange start (start + c.utf8Size), .unrecognizedCharacter c⟩

section

variable {c quote : Char} {cs culprit : List Char} {kind : LexErrorKind}

/-- Looking at the text again tells the two faults of strings apart as reading does. -/
theorem faultInString_of_stringBody_error (h : stringBody quote cs = .error kind) :
    faultInString quote cs = kind := by
  fun_induction stringBody quote cs with
  | case1 =>
    cases h
    rfl
  | case2 =>
    cases h
    rfl
  | case3 c cs ih => exact ih (bind_pure_eq_error_iff.mp h)
  | case4 cs => cases h
  | case5 c cs hlast hescape hc ih =>
    rw [faultInString, if_neg hc]
    · exact ih (bind_pure_eq_error_iff.mp h)
    · exact hlast
    · exact hescape

/-- A second look tells what the first one did, but of a malformed number, which is not looked at
again. -/
theorem classify_of_readLexeme_error (h : readLexeme c cs = .error (kind, culprit))
    (hnumber : ∀ run, kind ≠ .malformedNumber run) (start : Nat) :
    classify start (c :: cs) = ⟨.ofRange start (start + byteLength culprit), kind⟩ := by
  unfold classify
  by_cases hquote : isQuote c = true
  · rw [readLexeme_of_isQuote hquote, readString] at h
    split at h
    · cases h
    · next hbody =>
      cases h
      simp only [if_pos hquote, faultInString_of_stringBody_error hbody]
  · -- Words never fail, so what is left is a character that nothing begins with.
    have hfound : kind = .unrecognizedCharacter c ∧ culprit = [c] := by
      unfold readLexeme at h
      split at h
      · dsimp only [readNumber] at h
        split at h
        · cases h
        · cases h
        · cases h
          exact absurd rfl (hnumber _)
      · split at h
        · cases h
        · exact readSymbol_eq_error h
    rcases hfound with ⟨rfl, rfl⟩
    simp only [if_neg hquote, byteLength, Nat.add_zero]

end

/-! ## The first fault -/

section

variable {start : Nat} {cs : List Char} {tokens : List Token} {e : LexError}

/-- A token is placed where it was read, and the others behind it. -/
theorem scan_token {c : Char} {lexeme : Lexeme} (hc : Text.isSeparator c = false)
    (h : readLexeme c cs = .ok lexeme) (start : Nat) :
    scan start (c :: cs) =
      (⟨lexeme.kind, lexeme.text?, .ofRange start (start + byteLength lexeme.chars)⟩ ::
        (scan (start + byteLength lexeme.chars) lexeme.rest).1,
      (scan (start + byteLength lexeme.chars) lexeme.rest).2) := by
  rw [scan, if_neg (by simp [hc])]
  split
  · next hread =>
    rw [h] at hread
    cases hread
  · next lexeme' hread =>
    rw [h] at hread
    cases hread
    rfl

/-- What stands before the place where reading ends is read as it is alone. -/
theorem exists_of_scan_error (h : scan start cs = (tokens, some e)) :
    ∃ before c rest culprit, cs = before ++ c :: rest ∧ scan start before = (tokens, none) ∧
      Text.isSeparator c = false ∧ readLexeme c rest = .error (e.kind, culprit) ∧
      e.span = .ofRange (start + byteLength before)
        (start + byteLength before + byteLength culprit) := by
  -- By induction along the text; what is read in front is read again when the text is cut short.
  fun_induction scan start cs generalizing tokens with
  | case1 start => cases h
  | case2 start c cs hc ih =>
    rcases ih h with ⟨before, d, rest, culprit, rfl, hbefore, hd, hread, hspan⟩
    refine ⟨c :: before, d, rest, culprit, rfl, ?_, hd, hread, ?_⟩
    · rw [scan, if_pos hc, hbefore]
    · rw [hspan, byteLength, Nat.add_assoc start]
  | case3 start c cs hc kind culprit hread =>
    cases h
    refine ⟨[], c, cs, culprit, rfl, ?_, Bool.eq_false_of_not_eq_true hc, hread, rfl⟩
    rw [scan]
  | case4 start c cs hc lexeme hread stop others failure? hscan =>
    rename_i ih
    cases h
    rw [hscan] at ih
    rcases ih rfl with ⟨before, d, rest, culprit, hsplit, hbefore, hd, hfault, hspan⟩
    rcases readLexeme_behind hread with ⟨tail, hchars, rfl, hbehind⟩
    -- The token is the longest one in front of `before` too, which starts as what followed it.
    have hparts : Parts lexeme.rest before := by
      rw [hsplit]
      exact parts_front before _
    refine ⟨lexeme.chars ++ before, d, rest, culprit, ?_, ?_, hd, hfault, ?_⟩
    · rw [hchars, hsplit]
      simp
    · have htoken := scan_token (Bool.eq_false_of_not_eq_true hc) (hbehind before hparts) start
      rw [hchars, List.cons_append, htoken, hbefore]
    · rw [hspan, byteLength_append, Nat.add_assoc start]

end

end Lexer

/-! ## The whole text -/

section

open Lexer

/-- The text is read up to the error, which tells the fault of the text behind: the first one. -/
structure FirstFault (text : String) (e : LexError) (before rest culprit : List Char) : Prop where
  split : text.toList = before ++ rest
  front : culprit <+: rest
  span : e.span = ⟨byteLength before, byteLength before + byteLength culprit⟩
  /-- The tokens before the error are kept, and they are those of the text that ends there. -/
  kept : tokenize (String.ofList before) = .ok (keptTokens text)
  fault : ∀ kind chars, Fault rest kind chars ↔ kind = e.kind ∧ chars = culprit
  /-- A second look tells the same. -/
  again : (∀ run, e.kind ≠ .malformedNumber run) → classify (byteLength before) rest = e

/-- Of a text that has no tokens the first fault is told. -/
theorem located_of_tokenize_error {text : String} {e : LexError}
    (hsize : text.utf8ByteSize < 4294967296) (h : tokenize text = .error e) :
    ∃ before rest culprit, FirstFault text e before rest culprit := by
  unfold tokenize at h
  split at h
  · cases h
  · next tokens failure hscan =>
    cases h
    have hkept : keptTokens text = tokens := congrArg Prod.fst hscan
    rcases exists_of_scan_error hscan with
      ⟨before, c, rest, culprit, hsplit, hbefore, hc, hread, hspan⟩
    rw [Nat.zero_add] at hspan
    -- Scanning stops where reading first fails, and why it fails is told by the text.
    have hfault := (readLexeme_eq_error_iff hc).mp hread
    have hfront := hfault.front
    refine ⟨before, c :: rest, culprit, hsplit, hfront, ?_, ?_, ?_, ?_⟩
    · rcases hfront with ⟨after, hafter⟩
      have hbytes : byteLength text.toList
          = byteLength before + (byteLength culprit + byteLength after) := by
        rw [hsplit, ← hafter, byteLength_append, byteLength_append]
      rw [byteLength_toList] at hbytes
      rw [hspan, ofRange_of_lt (Nat.le_add_right _ _) (by omega)]
    · rw [tokenize, String.toList_ofList, hbefore, hkept]
    · intro kind chars
      rw [← readLexeme_eq_error_iff hc, hread, Except.error.injEq, Prod.mk.injEq]
      exact and_congr eq_comm eq_comm
    · intro hnumber
      rw [classify_of_readLexeme_error hread hnumber, ← hspan]

/-- The string has an escaped quote, the other quote and a character of three bytes, and never
closes. -/
theorem located_unterminated :
    ∃ before rest culprit, FirstFault "x[1.] '\\'\"€" ⟨⟨6, 13⟩, .unterminatedString '\''⟩
      before rest culprit := by
  have hsize : "x[1.] '\\'\"€".utf8ByteSize < 4294967296 := by decide
  have herror : tokenize "x[1.] '\\'\"€" = .error ⟨⟨6, 13⟩, .unterminatedString '\''⟩ := by
    decide +kernel
  exact located_of_tokenize_error hsize herror

end

end Edict
