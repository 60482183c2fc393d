import Edict.Token.Lexer
import Mathlib.Computability.Language

namespace Edict

open Computability

/-! # The patterns of tokens

What a token may look like, as languages of characters, without a word on how tokens are read.  At
each place the longest text that is in one of the languages is taken, and of two languages that it
is in, the one with a fixed spelling comes first: `true` is a truth value, `trueish` a name.

Main statements:

* `LongestMatch.unique`: at a place there is at most one such text, in one pattern;
* `readLexeme_eq_ok_iff`: it is what is read there, and nothing is read where there is none or where
  it is a number with more than one point.
-/

namespace Lexer

/-! ## Classes of characters -/

/-- The texts of one character, which `p` allows. -/
def oneOf (p : Char → Bool) : Language Char := {w | ∃ c, p c = true ∧ w = [c]}

/-- A word of one character and more. -/
theorem mem_oneOf_mul {p : Char → Bool} {l : Language Char} {w : List Char} :
    w ∈ oneOf p * l ↔ ∃ c cs, w = c :: cs ∧ p c = true ∧ cs ∈ l := by
  rw [Language.mem_mul]
  constructor
  · rintro ⟨_, ⟨c, hc, rfl⟩, cs, hcs, rfl⟩
    exact ⟨c, cs, rfl, hc, hcs⟩
  · rintro ⟨c, cs, rfl, hc, hcs⟩
    exact ⟨[c], ⟨c, hc, rfl⟩, cs, hcs, rfl⟩

/-- A word of characters of one sort. -/
theorem mem_kstar_oneOf {p : Char → Bool} {w : List Char} :
    w ∈ (oneOf p)∗ ↔ ∀ c ∈ w, p c = true := by
  rw [Language.mem_kstar]
  constructor
  · rintro ⟨pieces, rfl, hpieces⟩ c hc
    rcases List.mem_flatten.mp hc with ⟨piece, hpiece, hmem⟩
    rcases hpieces piece hpiece with ⟨d, hd, rfl⟩
    rw [List.mem_singleton.mp hmem]
    exact hd
  · intro h
    refine ⟨w.map fun c => [c], by simp [← List.flatMap_def], ?_⟩
    intro piece hpiece
    rcases List.mem_map.mp hpiece with ⟨c, hc, rfl⟩
    exact ⟨c, h c hc, rfl⟩

/-- A piece of a string between `quote`s: a character, or a backslash and the character that it
escapes. -/
def piece (quote : Char) : Language Char :=
  oneOf (fun c => c ≠ quote && c ≠ '\\') + oneOf (· = '\\') * oneOf fun _ => true

/-- Inside a string stands a character that is neither quote nor backslash, or a backslash and any
one character. -/
theorem mem_piece_iff {quote : Char} {w : List Char} :
    w ∈ piece quote ↔ (∃ c, c ≠ quote ∧ c ≠ '\\' ∧ w = [c]) ∨ ∃ c, w = ['\\', c] := by
  rw [piece, Language.mem_add, mem_oneOf_mul]
  constructor
  · rintro (⟨c, hc, rfl⟩ | ⟨_, _, rfl, hc, d, -, rfl⟩)
    · rw [Bool.and_eq_true, decide_eq_true_iff, decide_eq_true_iff] at hc
      exact .inl ⟨c, hc.1, hc.2, rfl⟩
    · rw [decide_eq_true_iff.mp hc]
      exact .inr ⟨d, rfl⟩
  · rintro (⟨c, hquote, hescape, rfl⟩ | ⟨c, rfl⟩)
    · exact .inl ⟨c, by simp [hquote, hescape], rfl⟩
    · exact .inr ⟨'\\', [c], rfl, rfl, c, rfl, rfl⟩

/-! ## Patterns -/

/-- What a token may look like. -/
inductive Pattern where
  /-- The one spelling of a punctuation kind. -/
  | symbol (kind : TokenKind)
  /-- The word for a truth value. -/
  | truth (b : Bool)
  | int
  /-- Digits, a point and more digits, or none. -/
  | float
  /-- A number with more than one point, which stands for nothing. -/
  | malformed
  | doubleQuoted
  | singleQuoted
  | identifier

namespace Pattern

/-- The texts of a string between `quote`s. -/
def quoted (quote : Char) : Language Char :=
  oneOf (· = quote) * ((piece quote)∗ * oneOf (· = quote))

/-- The texts that look like this. -/
def language : Pattern → Language Char
  | symbol kind => {w | kind.symbol?.map String.toList = some w}
  | truth b => {w | w = (if b then "true" else "false").toList}
  | int => oneOf isDigit * (oneOf isDigit)∗
  | float => oneOf isDigit * ((oneOf isDigit)∗ * (oneOf (· = '.') * (oneOf isDigit)∗))
  | malformed =>
    oneOf isDigit * ((oneOf isDigit)∗ * (oneOf (· = '.') *
      ((oneOf isDigit)∗ * (oneOf (· = '.') * (oneOf isNumeric)∗))))
  | doubleQuoted => quoted '"'
  | singleQuoted => quoted '\''
  | identifier => oneOf isWordStart * (oneOf isWordPart)∗

/-- Whether there is one spelling only. -/
def isFixed : Pattern → Bool
  | symbol _ | truth _ => true
  | _ => false

/-- The kind of the tokens that look like this, if there are any. -/
def kind? : Pattern → Option TokenKind
  | symbol kind => some kind
  | truth _ => some .bool
  | int => some .int
  | float => some .float
  | malformed => none
  | doubleQuoted | singleQuoted => some .str
  | identifier => some .identifier

/-- A string in quotes has certain contents: the last character of each of its pieces. -/
def Contents (quote : Char) (word contents : List Char) : Prop :=
  ∃ pieces : List (List Char), (∀ x ∈ pieces, x ∈ piece quote) ∧
    word = quote :: (pieces.flatten ++ [quote]) ∧ contents = pieces.filterMap List.getLast?

/-- The text of a token that looks like this and is spelled as `word`: its contents if it is a
string, nothing if there is one spelling only, or else the spelling. -/
def Text (word : List Char) (text? : Option String) : Pattern → Prop
  | symbol _ => text? = none
  | doubleQuoted => ∃ contents, Contents '"' word contents ∧ text? = some (String.ofList contents)
  | singleQuoted => ∃ contents, Contents '\'' word contents ∧ text? = some (String.ofList contents)
  | _ => text? = some (String.ofList word)

end Pattern

/-- Of all that can be read at the start of `word ++ rest`, `word` is the longest, and `p` is the
pattern of its choice. -/
structure LongestMatch (p : Pattern) (word rest : List Char) : Prop where
  mem : word ∈ p.language
  longest : ∀ (q : Pattern) (other : List Char), other ∈ q.language → other <+: word ++ rest →
    other.length ≤ word.length
  first : ∀ q : Pattern, word ∈ q.language → q = p ∨ (p.isFixed = true ∧ q.isFixed = false)

/-- There is no choice in what is the longest. -/
theorem LongestMatch.unique {p q : Pattern} {word rest word' rest' : List Char}
    (h : LongestMatch p word rest) (h' : LongestMatch q word' rest')
    (hsame : word ++ rest = word' ++ rest') : p = q ∧ word = word' ∧ rest = rest' := by
  have hle : word'.length ≤ word.length := by
    refine h.longest q word' h'.mem ?_
    rw [hsame]
    exact List.prefix_append word' rest'
  have hge : word.length ≤ word'.length := by
    refine h'.longest p word h.mem ?_
    rw [← hsame]
    exact List.prefix_append word rest
  rcases List.append_inj hsame (Nat.le_antisymm hge hle) with ⟨rfl, rfl⟩
  refine ⟨?_, rfl, rfl⟩
  rcases h.first q h'.mem with rfl | ⟨hp, hq⟩
  · rfl
  · rcases h'.first p h.mem with rfl | ⟨hq', -⟩
    · rfl
    · rw [hq] at hq'
      cases hq'

/-! ## What a pattern starts with -/

theorem isDigit_iff {c : Char} : isDigit c = true ↔ 48 ≤ c.toNat ∧ c.toNat ≤ 57 := by
  simp [isDigit, Char.le_def, UInt32.le_iff_toNat_le]

theorem isQuote_iff {c : Char} : isQuote c = true ↔ c = '"' ∨ c = '\'' := by simp [isQuote]

theorem isSeparator_iff {c : Char} : Text.isSeparator c = true ↔
    c = ' ' ∨ c = '\t' ∨ c = '\r' ∨ c = '\n' ∨ c = '\x0c' := by
  simp [Text.isSeparator, or_assoc]

/-- No word begins with a digit, and so the first character tells the patterns apart. -/
theorem not_isWordStart_of_isDigit {c : Char} (h : isDigit c = true) : isWordStart c = false := by
  have hbounds := isDigit_iff.mp h
  cases hstart : isWordStart c with
  | false => rfl
  | true =>
    have hcases : (97 ≤ c.toNat ∧ c.toNat ≤ 122 ∨ 65 ≤ c.toNat ∧ c.toNat ≤ 90) ∨ c = '_' := by
      simpa [isWordStart, Char.le_def, UInt32.le_iff_toNat_le] using hstart
    rcases hcases with hletter | rfl
    · omega
    · exact absurd h (by decide)

/-- Whether a text that looks like `p` may start with a character. -/
def Pattern.starts (p : Pattern) (c : Char) : Bool :=
  match p with
  | symbol _ => !(isDigit c || isWordStart c || isQuote c || Text.isSeparator c)
  | int | float | malformed => isDigit c
  | doubleQuoted => c = '"'
  | singleQuoted => c = '\''
  | truth _ | identifier => isWordStart c

/-- A word of a pattern begins with a character that the pattern may begin with. -/
theorem exists_cons_of_mem {p : Pattern} {w : List Char} (h : w ∈ p.language) :
    ∃ c cs, w = c :: cs ∧ p.starts c = true := by
  cases p with
  | symbol kind =>
    have hsymbol : kind.symbol?.map String.toList = some w := h
    cases kind <;> cases hsymbol <;> exact ⟨_, _, rfl, by decide⟩
  | truth b =>
    have hword : w = (if b then "true" else "false").toList := h
    rw [hword]
    cases b with
    | true => exact ⟨'t', ['r', 'u', 'e'], rfl, by decide⟩
    | false => exact ⟨'f', ['a', 'l', 's', 'e'], rfl, by decide⟩
  | int | float | malformed | doubleQuoted | singleQuoted | identifier =>
    rcases mem_oneOf_mul.mp h with ⟨c, cs, rfl, hc, -⟩
    exact ⟨c, cs, rfl, hc⟩

/-- A text in the language of a pattern that is found at a place starts as the place does. -/
theorem starts_of_front {p : Pattern} {w cs : List Char} {c : Char} (h : w ∈ p.language)
    (hfront : w <+: c :: cs) : p.starts c = true ∧ ∃ ds, w = c :: ds ∧ ds <+: cs := by
  rcases exists_cons_of_mem h with ⟨d, ds, rfl, hd⟩
  rcases List.cons_prefix_cons.mp hfront with ⟨rfl, hds⟩
  exact ⟨hd, ds, rfl, hds⟩

section

variable {p : Pattern} {c : Char}

/-- What begins with a digit is a number. -/
theorem number_of_starts (hc : isDigit c = true) (h : p.starts c = true) :
    p = .int ∨ p = .float ∨ p = .malformed := by
  have hstart := not_isWordStart_of_isDigit hc
  cases p with
  | int | float | malformed => simp
  | symbol _ | truth _ | identifier => simp [Pattern.starts, hc, hstart] at h
  | doubleQuoted | singleQuoted =>
    obtain rfl := decide_eq_true_iff.mp h
    exact absurd hc (by decide)

/-- What begins as a word does is a name or a truth value. -/
theorem word_of_starts (hc : isWordStart c = true) (h : p.starts c = true) :
    p = .identifier ∨ ∃ b, p = .truth b := by
  cases p with
  | identifier => exact .inl rfl
  | truth b => exact .inr ⟨b, rfl⟩
  | symbol _ => simp [Pattern.starts, hc] at h
  | int | float | malformed =>
    rw [not_isWordStart_of_isDigit h] at hc
    cases hc
  | doubleQuoted | singleQuoted =>
    obtain rfl := decide_eq_true_iff.mp h
    exact absurd hc (by decide)

/-- The pattern of the strings between `quote`s. -/
def Pattern.ofQuote (quote : Char) : Pattern :=
  if quote = '"' then .doubleQuoted else .singleQuoted

/-- What begins with a quote is a string between such quotes. -/
theorem string_of_starts (hc : isQuote c = true) (h : p.starts c = true) :
    p = .ofQuote c := by
  rcases isQuote_iff.mp hc with rfl | rfl
  all_goals
    cases p with
    | doubleQuoted | singleQuoted => first | rfl | cases h
    | symbol _ | truth _ | int | float | malformed | identifier => cases h

/-- What begins with any other character is a symbol. -/
theorem symbol_of_starts (hdigit : isDigit c = false) (hstart : isWordStart c = false)
    (hquote : isQuote c = false) (h : p.starts c = true) : ∃ kind, p = .symbol kind := by
  cases p with
  | symbol kind => exact ⟨kind, rfl⟩
  | truth _ | int | float | malformed | identifier =>
    simp [Pattern.starts, hdigit, hstart] at h
  | doubleQuoted | singleQuoted =>
    obtain rfl := decide_eq_true_iff.mp h
    exact absurd hquote (by decide)

/-- No token starts with a separator. -/
theorem not_starts_of_isSeparator (hc : Text.isSeparator c = true) : p.starts c = false := by
  rcases isSeparator_iff.mp hc with rfl | rfl | rfl | rfl | rfl
  all_goals cases p <;> rfl

/-- No token begins with a separator. -/
theorem not_isSeparator_of_starts (h : p.starts c = true) : Text.isSeparator c = false := by
  cases hseparator : Text.isSeparator c with
  | false => rfl
  | true =>
    rw [not_starts_of_isSeparator hseparator] at h
    cases h

end

/-! ## Numbers -/

theorem isNumeric_iff {c : Char} : isNumeric c = true ↔ isDigit c = true ∨ c = '.' := by
  simp [isNumeric]

/-- Digits with `n` points among them. -/
structure Numeric (n : Nat) (cs : List Char) : Prop where
  numeric : ∀ c ∈ cs, isNumeric c = true
  points : cs.count '.' = n

/-- Digits are a numeric run without points. -/
theorem mem_digits_iff {cs : List Char} : cs ∈ (oneOf isDigit)∗ ↔ Numeric 0 cs := by
  rw [mem_kstar_oneOf]
  constructor
  · intro h
    refine ⟨fun c hc => isNumeric_iff.mpr (.inl (h c hc)), List.count_eq_zero.mpr fun hpoint => ?_⟩
    exact absurd (h '.' hpoint) (by decide)
  · intro h c hc
    have hpoint : '.' ∉ cs := List.count_eq_zero.mp h.points
    rcases isNumeric_iff.mp (h.numeric c hc) with hdigit | rfl
    · exact hdigit
    · exact absurd hc hpoint

/-- Up to the first point there are digits alone. -/
theorem numeric_succ_iff {n : Nat} {cs : List Char} :
    Numeric (n + 1) cs ↔ ∃ ds rest, cs = ds ++ '.' :: rest ∧ Numeric 0 ds ∧ Numeric n rest := by
  constructor
  · intro h
    have hpoint : '.' ∈ cs := List.count_pos_iff.mp (by rw [h.points]; omega)
    rcases List.eq_append_cons_of_mem hpoint with ⟨ds, rest, rfl, hds⟩
    have hcount := h.points
    rw [List.count_append, List.count_eq_zero.mpr hds, List.count_cons_self] at hcount
    refine ⟨ds, rest, rfl, ⟨?_, List.count_eq_zero.mpr hds⟩, ⟨?_, by omega⟩⟩
    · intro c hc
      exact h.numeric c (List.mem_append_left _ hc)
    · intro c hc
      exact h.numeric c (List.mem_append_right _ (List.mem_cons_of_mem _ hc))
  · rintro ⟨ds, rest, rfl, hds, hrest⟩
    constructor
    · intro c hc
      rcases List.mem_append.mp hc with hc | hc
      · exact hds.numeric c hc
      · rcases List.mem_cons.mp hc with rfl | hc
        · exact isNumeric_iff.mpr (.inr rfl)
        · exact hrest.numeric c hc
    · rw [List.count_append, hds.points, List.count_cons_self, hrest.points]
      omega

/-- A language behind digits and a point. -/
theorem mem_digits_point_iff {l : Language Char} {cs : List Char} :
    cs ∈ (oneOf isDigit)∗ * (oneOf (· = '.') * l) ↔
      ∃ ds rest, cs = ds ++ '.' :: rest ∧ Numeric 0 ds ∧ rest ∈ l := by
  rw [Language.mem_mul]
  constructor
  · rintro ⟨ds, hds, _, hrest, rfl⟩
    rcases mem_oneOf_mul.mp hrest with ⟨c, rest, rfl, hc, hrest⟩
    rw [decide_eq_true_iff.mp hc]
    exact ⟨ds, rest, rfl, mem_digits_iff.mp hds, hrest⟩
  · rintro ⟨ds, rest, rfl, hds, hrest⟩
    exact ⟨ds, mem_digits_iff.mpr hds, '.' :: rest, mem_oneOf_mul.mpr ⟨'.', rest, rfl, rfl, hrest⟩,
      rfl⟩

/-- What a number with so many points looks like. -/
def Pattern.ofPoints : Nat → Pattern
  | 0 => .int
  | 1 => .float
  | _ => .malformed

section

variable {p : Pattern} {c : Char} {cs : List Char}

/-- A numeric run is of the pattern that its points decide on. -/
theorem mem_ofPoints {n : Nat} (hc : isDigit c = true) (h : Numeric n cs) :
    c :: cs ∈ (Pattern.ofPoints n).language := by
  match n with
  | 0 => exact mem_oneOf_mul.mpr ⟨c, cs, rfl, hc, mem_digits_iff.mpr h⟩
  | 1 =>
    rcases numeric_succ_iff.mp h with ⟨ds, rest, hcs, hds, hrest⟩
    have hfirst := mem_digits_point_iff.mpr ⟨ds, rest, hcs, hds, mem_digits_iff.mpr hrest⟩
    exact mem_oneOf_mul.mpr ⟨c, cs, rfl, hc, hfirst⟩
  | n + 2 =>
    rcases numeric_succ_iff.mp h with ⟨ds, rest, hcs, hds, hrest⟩
    rcases numeric_succ_iff.mp hrest with ⟨es, rest', hrest', hes, hlast⟩
    have hbehind : rest' ∈ (oneOf isNumeric)∗ := mem_kstar_oneOf.mpr hlast.numeric
    have hsecond := mem_digits_point_iff.mpr ⟨es, rest', hrest', hes, hbehind⟩
    have hfirst := mem_digits_point_iff.mpr ⟨ds, rest, hcs, hds, hsecond⟩
    exact mem_oneOf_mul.mpr ⟨c, cs, rfl, hc, hfirst⟩

/-- How many points there are tells what a number looks like. -/
theorem eq_ofPoints (hc : isDigit c = true) (h : c :: cs ∈ p.language) :
    Numeric (cs.count '.') cs ∧ p = .ofPoints (cs.count '.') := by
  have hstarts := (starts_of_front h (List.prefix_refl _)).1
  have hcases : ∃ n, Numeric n cs ∧ p = .ofPoints n := by
    rcases number_of_starts hc hstarts with rfl | rfl | rfl
    all_goals
      rcases mem_oneOf_mul.mp h with ⟨_, _, heq, -, hcs⟩
      cases heq
    · exact ⟨0, mem_digits_iff.mp hcs, rfl⟩
    · rcases mem_digits_point_iff.mp hcs with ⟨ds, rest, hsplit, hds, hrest⟩
      exact ⟨1, numeric_succ_iff.mpr ⟨ds, rest, hsplit, hds, mem_digits_iff.mp hrest⟩, rfl⟩
    · rcases mem_digits_point_iff.mp hcs with ⟨ds, rest, hsplit, hds, hrest⟩
      rcases mem_digits_point_iff.mp hrest with ⟨es, rest', hsplit', hes, hrest'⟩
      have hlast : Numeric (rest'.count '.') rest' := ⟨mem_kstar_oneOf.mp hrest', rfl⟩
      have hsecond := numeric_succ_iff.mpr ⟨es, rest', hsplit', hes, hlast⟩
      exact ⟨_ + 2, numeric_succ_iff.mpr ⟨ds, rest, hsplit, hds, hsecond⟩, rfl⟩
  rcases hcases with ⟨n, hnumeric, rfl⟩
  rw [hnumeric.points]
  exact ⟨hnumeric, rfl⟩

/-- No more of `cs` than the run at its start is in a class. -/
theorem length_le_takeWhile {q : Char → Bool} {ds : List Char} (h : ∀ d ∈ ds, q d = true)
    (hfront : ds <+: cs) : ds.length ≤ (cs.takeWhile q).length := by
  rcases hfront with ⟨rest, rfl⟩
  rw [List.takeWhile_append_of_pos h, List.length_append]
  omega

/-- The run of digits and points is the longest match behind a digit. -/
theorem longestMatch_number (hc : isDigit c = true) (cs : List Char) :
    LongestMatch (.ofPoints ((cs.takeWhile isNumeric).count '.')) (c :: cs.takeWhile isNumeric)
      (cs.dropWhile isNumeric) := by
  have hrun : ∀ d ∈ cs.takeWhile isNumeric, isNumeric d = true :=
    List.all_eq_true.mp List.all_takeWhile
  constructor
  · exact mem_ofPoints hc ⟨hrun, rfl⟩
  · intro q other hq hfront
    rw [List.cons_append, List.takeWhile_append_dropWhile] at hfront
    rcases starts_of_front hq hfront with ⟨-, ds, rfl, hds⟩
    have hnumeric := (eq_ofPoints hc hq).1
    exact Nat.succ_le_succ (length_le_takeWhile hnumeric.numeric hds)
  · intro q hq
    exact .inl (eq_ofPoints hc hq).2

end

/-! ## Words -/

section

variable {p : Pattern} {c : Char} {cs : List Char}

/-- What a word looks like. -/
def Pattern.ofWord (w : List Char) : Pattern :=
  if w = "true".toList then .truth true
  else if w = "false".toList then .truth false
  else .identifier

/-- A name begins as a word does and goes on as one. -/
theorem mem_identifier_iff :
    c :: cs ∈ Pattern.identifier.language ↔
      isWordStart c = true ∧ ∀ d ∈ cs, isWordPart d = true := by
  constructor
  · intro h
    rcases mem_oneOf_mul.mp h with ⟨_, _, heq, hc, hcs⟩
    cases heq
    exact ⟨hc, mem_kstar_oneOf.mp hcs⟩
  · rintro ⟨hc, hcs⟩
    exact mem_oneOf_mul.mpr ⟨c, cs, rfl, hc, mem_kstar_oneOf.mpr hcs⟩

/-- The words for truth values could be names as well. -/
theorem mem_identifier_of_mem_truth {b : Bool} {w : List Char}
    (h : w ∈ (Pattern.truth b).language) : w ∈ Pattern.identifier.language := by
  have hw : w = (if b then "true" else "false").toList := h
  rw [hw]
  cases b with
  | true =>
    have hparts : "rue".toList.all isWordPart = true := by decide
    exact mem_identifier_iff.mpr ⟨by decide, List.all_eq_true.mp hparts⟩
  | false =>
    have hparts : "alse".toList.all isWordPart = true := by decide
    exact mem_identifier_iff.mpr ⟨by decide, List.all_eq_true.mp hparts⟩

/-- Each pattern that begins as words do is made of words. -/
theorem mem_identifier_of_starts {w : List Char} (hc : isWordStart c = true)
    (hstarts : p.starts c = true) (h : w ∈ p.language) : w ∈ Pattern.identifier.language := by
  rcases word_of_starts hc hstarts with rfl | ⟨b, rfl⟩
  · exact h
  · exact mem_identifier_of_mem_truth h

/-- The whole run of letters and digits is the longest match behind a letter. -/
theorem longestMatch_word (hc : isWordStart c = true) :
    LongestMatch (.ofWord (c :: cs.takeWhile isWordPart)) (c :: cs.takeWhile isWordPart)
      (cs.dropWhile isWordPart) := by
  have hrun : ∀ d ∈ cs.takeWhile isWordPart, isWordPart d = true :=
    List.all_eq_true.mp List.all_takeWhile
  have hname : c :: cs.takeWhile isWordPart ∈ Pattern.identifier.language :=
    mem_identifier_iff.mpr ⟨hc, hrun⟩
  constructor
  · unfold Pattern.ofWord
    split
    · next htrue => exact htrue
    · split
      · next hfalse => exact hfalse
      · exact hname
  · intro q other hq hfront
    rw [List.cons_append, List.takeWhile_append_dropWhile] at hfront
    rcases starts_of_front hq hfront with ⟨hstarts, ds, rfl, hds⟩
    have hparts := (mem_identifier_iff.mp (mem_identifier_of_starts hc hstarts hq)).2
    exact Nat.succ_le_succ (length_le_takeWhile hparts hds)
  · intro q hq
    have hstarts := (starts_of_front hq (List.prefix_refl _)).1
    -- A word with a fixed spelling is chosen before the name that it might be.
    rcases word_of_starts hc hstarts with rfl | ⟨b, rfl⟩
    · unfold Pattern.ofWord
      split
      · exact .inr ⟨rfl, rfl⟩
      · split
        · exact .inr ⟨rfl, rfl⟩
        · exact .inl rfl
    · have hword : c :: cs.takeWhile isWordPart = (if b then "true" else "false").toList := hq
      left
      rw [hword]
      cases b with
      | true => rfl
      | false => rfl

end

/-! ## Strings -/

section

variable {quote : Char}

/-- Behind the opening quote, a string in quotes is read to its closing one. -/
theorem stringBody_of_pieces (hquote : quote ≠ '\\') {pieces : List (List Char)}
    (hpieces : ∀ x ∈ pieces, x ∈ piece quote) (rest : List Char) :
    stringBody quote (pieces.flatten ++ quote :: rest) = .ok (pieces.flatten ++ [quote], rest) := by
  induction pieces with
  | nil =>
    rw [List.flatten_nil, List.nil_append, stringBody]
    · rw [if_pos rfl]
      rfl
    · rintro rfl
      exact absurd rfl hquote
    · rintro _ _ rfl
      exact absurd rfl hquote
  | cons x pieces ih =>
    have hrest := ih fun y hy => hpieces y (List.mem_cons_of_mem _ hy)
    -- A piece is one character that is no escape, or an escape and one character.
    rcases mem_piece_iff.mp (hpieces x List.mem_cons_self) with ⟨c, hc, hescape, rfl⟩ | ⟨c, rfl⟩
    · have hcons : ([c] :: pieces).flatten ++ quote :: rest
          = c :: (pieces.flatten ++ quote :: rest) := by simp
      rw [hcons, stringBody]
      · rw [if_neg hc, hrest]
        simp [bind, Except.bind, pure, Except.pure]
      · rintro rfl
        exact absurd rfl hescape
      · rintro _ _ rfl
        exact absurd rfl hescape
    · have hcons : (['\\', c] :: pieces).flatten ++ quote :: rest
          = '\\' :: c :: (pieces.flatten ++ quote :: rest) := by simp
      rw [hcons, stringBody, hrest]
      simp [bind, Except.bind, pure, Except.pure]

/-- A character is no backslash where neither of the cases of one holds. -/
theorem ne_escape_of_cases {c : Char} {cs : List Char} (hlast : c = '\\' → cs = [] → False)
    (hescape : ∀ d ds, c = '\\' → cs = d :: ds → False) : c ≠ '\\' := by
  rintro rfl
  cases cs with
  | nil => exact hlast rfl rfl
  | cons d ds => exact hescape d ds rfl rfl

/-- What is read up to the closing quote is made of pieces. -/
theorem exists_pieces_of_stringBody {cs body rest : List Char}
    (h : stringBody quote cs = .ok (body, rest)) :
    ∃ pieces : List (List Char), (∀ x ∈ pieces, x ∈ piece quote) ∧
      body = pieces.flatten ++ [quote] := by
  -- Reading goes on behind an escaped pair and behind a plain character, and ends at the quote.
  fun_induction stringBody quote cs generalizing body rest with
  | case1 => simp at h
  | case2 => simp at h
  | case3 c cs ih =>
    rcases bind_eq_ok_iff.1 h with ⟨⟨body', rest'⟩, hs, h⟩
    cases h
    rcases ih hs with ⟨pieces, hpieces, rfl⟩
    refine ⟨['\\', c] :: pieces, ?_, rfl⟩
    intro x hx
    rcases List.mem_cons.mp hx with rfl | hx
    · exact mem_piece_iff.mpr (.inr ⟨c, rfl⟩)
    · exact hpieces x hx
  | case4 cs =>
    cases h
    exact ⟨[], by simp, rfl⟩
  | case5 c cs hlast hescape hc ih =>
    rcases bind_eq_ok_iff.1 h with ⟨⟨body', rest'⟩, hs, h⟩
    cases h
    rcases ih hs with ⟨pieces, hpieces, rfl⟩
    have hne := ne_escape_of_cases hlast hescape
    refine ⟨[c] :: pieces, ?_, rfl⟩
    intro x hx
    rcases List.mem_cons.mp hx with rfl | hx
    · exact mem_piece_iff.mpr (.inl ⟨c, hc, hne, rfl⟩)
    · exact hpieces x hx

/-- A string is its pieces between two quotes. -/
theorem mem_quoted_iff {w : List Char} :
    w ∈ Pattern.quoted quote ↔ ∃ pieces : List (List Char), (∀ x ∈ pieces, x ∈ piece quote) ∧
      w = quote :: (pieces.flatten ++ [quote]) := by
  rw [Pattern.quoted, mem_oneOf_mul]
  constructor
  · rintro ⟨c, _, rfl, hc, hcs⟩
    rcases Language.mem_mul.mp hcs with ⟨inner, hinner, _, ⟨d, hd, rfl⟩, rfl⟩
    rcases Language.mem_kstar.mp hinner with ⟨pieces, rfl, hpieces⟩
    rw [decide_eq_true_iff.mp hc, decide_eq_true_iff.mp hd]
    exact ⟨pieces, hpieces, rfl⟩
  · rintro ⟨pieces, hpieces, rfl⟩
    refine ⟨quote, _, rfl, by simp, Language.mem_mul.mpr ⟨pieces.flatten, ?_, [quote], ?_, rfl⟩⟩
    · exact Language.mem_kstar.mpr ⟨pieces, rfl, hpieces⟩
    · exact ⟨quote, by simp, rfl⟩

theorem language_ofQuote (h : isQuote quote = true) :
    (Pattern.ofQuote quote).language = Pattern.quoted quote := by
  rcases isQuote_iff.mp h with rfl | rfl
  · rfl
  · rfl

theorem ne_escape_of_isQuote (h : isQuote quote = true) : quote ≠ '\\' := by
  rintro rfl
  exact absurd h (by decide)

/-- A string that starts at a place ends where reading it does. -/
theorem stringBody_of_match {p : Pattern} {w cs : List Char} (hquote : isQuote quote = true)
    (h : w ∈ p.language) (hfront : w <+: quote :: cs) :
    ∃ body rest, stringBody quote cs = .ok (body, rest) ∧ w = quote :: body := by
  have hstarts := (starts_of_front h hfront).1
  obtain rfl := string_of_starts hquote hstarts
  rw [language_ofQuote hquote] at h
  rcases mem_quoted_iff.mp h with ⟨pieces, hpieces, rfl⟩
  rcases hfront with ⟨rest, hcs⟩
  have hcs' : pieces.flatten ++ quote :: rest = cs := by simpa using hcs
  refine ⟨_, rest, ?_, rfl⟩
  rw [← hcs']
  exact stringBody_of_pieces (ne_escape_of_isQuote hquote) hpieces rest

/-- A string is its own longest match, as there is but one closing quote. -/
theorem longestMatch_string {cs body rest : List Char} (hquote : isQuote quote = true)
    (h : stringBody quote cs = .ok (body, rest)) :
    LongestMatch (.ofQuote quote) (quote :: body) rest := by
  have happend : quote :: body ++ rest = quote :: cs := by
    rw [List.cons_append, stringBody_append h]
  constructor
  · rcases exists_pieces_of_stringBody h with ⟨pieces, hpieces, rfl⟩
    rw [language_ofQuote hquote]
    exact mem_quoted_iff.mpr ⟨pieces, hpieces, rfl⟩
  · intro q other hq hfront
    rw [happend] at hfront
    rcases stringBody_of_match hquote hq hfront with ⟨body', rest', hbody, rfl⟩
    rw [h] at hbody
    cases hbody
    exact Nat.le_refl _
  · intro q hq
    exact .inl (string_of_starts hquote (starts_of_front hq (List.prefix_refl _)).1)

/-- Without its backslashes, a string is made of the last characters of its pieces. -/
theorem unescape_flatten {pieces : List (List Char)} (h : ∀ x ∈ pieces, x ∈ piece quote) :
    unescape pieces.flatten = pieces.filterMap List.getLast? := by
  induction pieces with
  | nil => rfl
  | cons x pieces ih =>
    have hrest := ih fun y hy => h y (List.mem_cons_of_mem _ hy)
    rcases mem_piece_iff.mp (h x List.mem_cons_self) with ⟨c, -, hescape, rfl⟩ | ⟨c, rfl⟩
    · rw [List.flatten_cons, List.singleton_append, unescape, hrest]
      · rfl
      · rintro _ _ rfl
        exact absurd rfl hescape
      · rintro rfl
        exact absurd rfl hescape
    · rw [List.flatten_cons, List.cons_append, List.singleton_append, unescape, hrest]
      rfl

/-- A string has one contents. -/
theorem contents_unique {word contents contents' : List Char}
    (h : Pattern.Contents quote word contents) (h' : Pattern.Contents quote word contents') :
    contents = contents' := by
  rcases h with ⟨pieces, hpieces, hword, rfl⟩
  rcases h' with ⟨pieces', hpieces', hword', rfl⟩
  have hflatten : pieces.flatten = pieces'.flatten := by
    rw [hword] at hword'
    simpa using hword'
  rw [← unescape_flatten hpieces, hflatten, unescape_flatten hpieces']

/-- What is read of a string, its escapes taken off, is its contents. -/
theorem contents_of_stringBody {cs body rest : List Char}
    (h : stringBody quote cs = .ok (body, rest)) :
    Pattern.Contents quote (quote :: body) (unescape body.dropLast) := by
  rcases exists_pieces_of_stringBody h with ⟨pieces, hpieces, rfl⟩
  refine ⟨pieces, hpieces, rfl, ?_⟩
  rw [List.dropLast_concat, unescape_flatten hpieces]

end

/-! ## Punctuation -/

section

variable {kind : TokenKind} {c d : Char} {cs : List Char}

/-- The symbols of one character, as a table and as patterns. -/
theorem singleKind?_eq_some_iff :
    singleKind? c = some kind ↔ [c] ∈ (Pattern.symbol kind).language := by
  constructor
  · intro h
    unfold singleKind? at h
    split at h <;> cases h <;> rfl
  · intro h
    have hsymbol : kind.symbol?.map String.toList = some [c] := h
    cases kind <;> cases hsymbol <;> rfl

/-- The symbols of two characters, as a table and as patterns. -/
theorem pairKind?_eq_some_iff :
    pairKind? c d = some kind ↔ [c, d] ∈ (Pattern.symbol kind).language := by
  constructor
  · intro h
    unfold pairKind? at h
    split at h <;> cases h <;> rfl
  · intro h
    have hsymbol : kind.symbol?.map String.toList = some [c, d] := h
    cases kind <;> cases hsymbol <;> rfl

/-- A punctuation mark has one character or two. -/
theorem symbol_cases {w : List Char} (h : w ∈ (Pattern.symbol kind).language) :
    (∃ c, w = [c]) ∨ ∃ c d, w = [c, d] := by
  have hsymbol : kind.symbol?.map String.toList = some w := h
  cases kind <;> cases hsymbol <;> first | exact .inl ⟨_, rfl⟩ | exact .inr ⟨_, _, rfl⟩

/-- Two characters are taken where they make a punctuation mark, or else one is. -/
theorem readSymbol_eq_ok {lexeme : Lexeme} (h : readSymbol c cs = .ok lexeme) :
    (∃ d ds kind, cs = d :: ds ∧ pairKind? c d = some kind ∧ lexeme = ⟨kind, none, [c, d], ds⟩) ∨
    ((∀ d ds, cs = d :: ds → pairKind? c d = none) ∧
      ∃ kind, singleKind? c = some kind ∧ lexeme = ⟨kind, none, [c], cs⟩) := by
  unfold readSymbol at h
  cases cs with
  | nil =>
    right
    refine ⟨by simp, ?_⟩
    cases hsingle : singleKind? c with
    | none => simp [hsingle] at h
    | some kind => exact ⟨kind, rfl, by simpa [hsingle] using h.symm⟩
  | cons d ds =>
    -- Two characters that are a symbol go before one that is.
    cases hpair : pairKind? c d with
    | some kind =>
      left
      exact ⟨d, ds, kind, rfl, hpair, by simpa [hpair] using h.symm⟩
    | none =>
      right
      refine ⟨?_, ?_⟩
      · intro _ _ hcs
        cases hcs
        exact hpair
      cases hsingle : singleKind? c with
      | none => simp [hpair, hsingle] at h
      | some kind => exact ⟨kind, rfl, by simpa [hpair, hsingle] using h.symm⟩

variable (hdigit : isDigit c = false) (hstart : isWordStart c = false) (hquote : isQuote c = false)
include hdigit hstart hquote

/-- A text that is found where no number, word or string starts is punctuation. -/
theorem symbol_of_match {p : Pattern} {w : List Char} (h : w ∈ p.language)
    (hfront : w <+: c :: cs) :
    ∃ kind, p = .symbol kind ∧ ((w = [c] ∧ singleKind? c = some kind) ∨
      ∃ d ds, w = [c, d] ∧ cs = d :: ds ∧ pairKind? c d = some kind) := by
  rcases starts_of_front h hfront with ⟨hstarts, tail, rfl, htail⟩
  rcases symbol_of_starts hdigit hstart hquote hstarts with ⟨kind, rfl⟩
  refine ⟨kind, rfl, ?_⟩
  rcases symbol_cases h with ⟨_, heq⟩ | ⟨_, d, heq⟩
  · cases heq
    exact .inl ⟨rfl, singleKind?_eq_some_iff.mpr h⟩
  · cases heq
    rcases htail with ⟨ds, rfl⟩
    exact .inr ⟨d, ds, rfl, rfl, pairKind?_eq_some_iff.mpr h⟩

/-- A punctuation mark of two characters is a longer match than the one that it starts with. -/
theorem longestMatch_symbol {lexeme : Lexeme} (h : readSymbol c cs = .ok lexeme) :
    LongestMatch (.symbol lexeme.kind) lexeme.chars lexeme.rest := by
  rcases readSymbol_eq_ok h with ⟨d, ds, kind, rfl, hpair, rfl⟩ | ⟨hnone, kind, hsingle, rfl⟩
  · constructor
    · -- No symbol is longer than two characters.
      exact pairKind?_eq_some_iff.mp hpair
    · intro q other hq hfront
      rcases symbol_of_match hdigit hstart hquote hq hfront with
        ⟨_, -, ⟨rfl, -⟩ | ⟨_, _, rfl, -, -⟩⟩
      · exact Nat.le_succ 1
      · exact Nat.le_refl 2
    · intro q hq
      rcases symbol_of_match hdigit hstart hquote hq (List.prefix_refl _) with
        ⟨_, rfl, ⟨hword, -⟩ | ⟨_, _, -, hds, hpair'⟩⟩
      · cases hword
      · cases hds
        rw [hpair] at hpair'
        cases hpair'
        exact .inl rfl
  · constructor
    · -- A longer one would have been read.
      exact singleKind?_eq_some_iff.mp hsingle
    · intro q other hq hfront
      rcases symbol_of_match hdigit hstart hquote hq hfront with
        ⟨_, -, ⟨rfl, -⟩ | ⟨d, ds, rfl, hcs, hpair⟩⟩
      · exact Nat.le_refl 1
      · rw [hnone d ds hcs] at hpair
        cases hpair
    · intro q hq
      rcases symbol_of_match hdigit hstart hquote hq (List.prefix_refl _) with
        ⟨_, rfl, ⟨-, hsingle'⟩ | ⟨_, _, hword, -, -⟩⟩
      · rw [hsingle] at hsingle'
        cases hsingle'
        exact .inl rfl
      · cases hword

/-- Where a punctuation mark is found, one is read. -/
theorem readSymbol_ne_error {p : Pattern} {w : List Char} (h : w ∈ p.language)
    (hfront : w <+: c :: cs) (e : LexErrorKind × List Char) : readSymbol c cs ≠ .error e := by
  unfold readSymbol
  rcases symbol_of_match hdigit hstart hquote h hfront with
    ⟨_, -, ⟨-, hsingle⟩ | ⟨d, ds, -, rfl, hpair⟩⟩
  · split
    · simp
    · simp [hsingle]
  · simp [hpair]

end

/-! ## What is read -/

/-- A token of this kind and text may be read at the start of `word ++ rest`, and it is spelled as
`word`. -/
def IsToken (kind : TokenKind) (text? : Option String) (word rest : List Char) : Prop :=
  ∃ p : Pattern, LongestMatch p word rest ∧ p.kind? = some kind ∧ p.Text word text?

/-- A word has one text under a pattern. -/
theorem Pattern.Text.unique {p : Pattern} {word : List Char} {text? text?' : Option String}
    (h : p.Text word text?) (h' : p.Text word text?') : text? = text?' := by
  cases p with
  | doubleQuoted | singleQuoted =>
    rcases h with ⟨contents, hcontents, rfl⟩
    rcases h' with ⟨contents', hcontents', rfl⟩
    rw [contents_unique hcontents hcontents']
  | symbol _ | truth _ | int | float | malformed | identifier => exact h.trans h'.symm

section

variable {c : Char} {cs : List Char} {lexeme : Lexeme}

/-- A digit is no point. -/
theorem count_points_cons (hc : isDigit c = true) : (c :: cs).count '.' = cs.count '.' := by
  refine List.count_cons_of_ne ?_
  rintro rfl
  exact absurd hc (by decide)

/-- Each of the four readers reads a token: the longest match, under the first pattern that has it.
-/
theorem readNumber_isToken (hc : isDigit c = true) (h : readNumber c cs = .ok lexeme) :
    IsToken lexeme.kind lexeme.text? lexeme.chars lexeme.rest := by
  have hmatch := longestMatch_number hc cs
  dsimp only [readNumber] at h
  rw [count_points_cons hc] at h
  split at h
  · next hcount =>
    cases h
    rw [hcount] at hmatch
    exact ⟨.int, hmatch, rfl, rfl⟩
  · next hcount =>
    cases h
    rw [hcount] at hmatch
    exact ⟨.float, hmatch, rfl, rfl⟩
  · cases h

/-- A number that is not read has too many points. -/
theorem ofPoints_of_readNumber_error (hc : isDigit c = true) {e : LexErrorKind × List Char}
    (h : readNumber c cs = .error e) :
    Pattern.ofPoints ((cs.takeWhile isNumeric).count '.') = .malformed := by
  dsimp only [readNumber] at h
  rw [count_points_cons hc] at h
  split at h
  · cases h
  · cases h
  · next hzero hone =>
    unfold Pattern.ofPoints
    split
    · next hcount => exact absurd hcount hzero
    · next hcount => exact absurd hcount hone
    · rfl

theorem readWord_isToken (hc : isWordStart c = true) :
    IsToken (readWord c cs).kind (readWord c cs).text? (readWord c cs).chars
      (readWord c cs).rest := by
  have htext : ∀ t : String,
      String.ofList (c :: cs.takeWhile isWordPart) = t ↔ c :: cs.takeWhile isWordPart = t.toList := by
    intro t
    rw [← String.toList_inj, String.toList_ofList]
  refine ⟨.ofWord (c :: cs.takeWhile isWordPart), longestMatch_word hc, ?_⟩
  simp only [readWord, Bool.or_eq_true, decide_eq_true_eq, htext]
  unfold Pattern.ofWord
  by_cases htrue : c :: cs.takeWhile isWordPart = "true".toList
  · rw [if_pos htrue, if_pos (.inl htrue)]
    exact ⟨rfl, rfl⟩
  · by_cases hfalse : c :: cs.takeWhile isWordPart = "false".toList
    · rw [if_neg htrue, if_pos hfalse, if_pos (.inr hfalse)]
      exact ⟨rfl, rfl⟩
    · rw [if_neg htrue, if_neg hfalse, if_neg (not_or.mpr ⟨htrue, hfalse⟩)]
      exact ⟨rfl, rfl⟩

theorem readString_isToken (hc : isQuote c = true) (h : readString c cs = .ok lexeme) :
    IsToken lexeme.kind lexeme.text? lexeme.chars lexeme.rest := by
  unfold readString at h
  split at h
  · next body rest hbody =>
    cases h
    refine ⟨.ofQuote c, longestMatch_string hc hbody, ?_⟩
    have hcontents := contents_of_stringBody hbody
    rcases isQuote_iff.mp hc with rfl | rfl
    · exact ⟨rfl, _, hcontents, rfl⟩
    · exact ⟨rfl, _, hcontents, rfl⟩
  · cases h

theorem readSymbol_isToken (hdigit : isDigit c = false) (hstart : isWordStart c = false)
    (hquote : isQuote c = false) (h : readSymbol c cs = .ok lexeme) :
    IsToken lexeme.kind lexeme.text? lexeme.chars lexeme.rest := by
  refine ⟨_, longestMatch_symbol hdigit hstart hquote h, rfl, ?_⟩
  rcases readSymbol_eq_ok h with ⟨_, _, _, _, _, rfl⟩ | ⟨_, _, _, rfl⟩
  · rfl
  · rfl

/-- What is read is the longest match, with the kind and text that go with it. -/
theorem readLexeme_isToken (h : readLexeme c cs = .ok lexeme) :
    IsToken lexeme.kind lexeme.text? lexeme.chars lexeme.rest := by
  unfold readLexeme at h
  split at h
  · next hdigit => exact readNumber_isToken hdigit h
  · next hdigit =>
    split at h
    · next hstart =>
      cases h
      exact readWord_isToken hstart
    · next hstart =>
      split at h
      · next hquote => exact readString_isToken hquote h
      · next hquote =>
        exact readSymbol_isToken (Bool.eq_false_of_not_eq_true hdigit)
          (Bool.eq_false_of_not_eq_true hstart) (Bool.eq_false_of_not_eq_true hquote) h

/-- Where nothing is read, nothing matches but a number with too many points. -/
theorem malformed_of_readLexeme_error {e : LexErrorKind × List Char}
    (h : readLexeme c cs = .error e) {p : Pattern} {word rest : List Char}
    (hmatch : LongestMatch p word rest) (hsplit : word ++ rest = c :: cs) : p = .malformed := by
  have hfront : word <+: c :: cs := ⟨rest, hsplit⟩
  -- Where some pattern matches, it is numbers alone that can fail.
  unfold readLexeme at h
  split at h
  · next hdigit =>
    have hrun := longestMatch_number hdigit cs
    rw [ofPoints_of_readNumber_error hdigit h] at hrun
    refine (hmatch.unique hrun ?_).1
    rw [hsplit, List.cons_append, List.takeWhile_append_dropWhile]
  · next hdigit =>
    split at h
    · cases h
    · next hstart =>
      split at h
      · next hquote =>
        rcases stringBody_of_match hquote hmatch.mem hfront with ⟨body, rest', hbody, -⟩
        rw [readString, hbody] at h
        cases h
      · next hquote =>
        exact absurd h (readSymbol_ne_error (Bool.eq_false_of_not_eq_true hdigit)
          (Bool.eq_false_of_not_eq_true hstart) (Bool.eq_false_of_not_eq_true hquote)
          hmatch.mem hfront e)

/-- A token is read where there is one, and it is that one. -/
theorem readLexeme_eq_ok_iff :
    readLexeme c cs = .ok lexeme ↔ lexeme.chars ++ lexeme.rest = c :: cs ∧
      IsToken lexeme.kind lexeme.text? lexeme.chars lexeme.rest := by
  constructor
  · intro h
    exact ⟨(readLexeme_append h).1, readLexeme_isToken h⟩
  · rintro ⟨hsplit, p, hmatch, hkind, htext⟩
    cases h : readLexeme c cs with
    | error e =>
      obtain rfl := malformed_of_readLexeme_error h hmatch hsplit
      cases hkind
    | ok lexeme' =>
      rcases readLexeme_isToken h with ⟨q, hmatch', hkind', htext'⟩
      have hsplit' := (readLexeme_append h).1
      -- The longest match is unique, and so are its kind and its text.
      rcases hmatch'.unique hmatch (hsplit'.trans hsplit.symm) with ⟨rfl, hchars, hrest⟩
      rw [hkind] at hkind'
      rw [hchars] at htext'
      have htext? := htext'.unique htext
      obtain ⟨kind, text?, chars, rest⟩ := lexeme
      obtain ⟨kind', text?', chars', rest'⟩ := lexeme'
      cases hkind'
      cases hchars
      cases hrest
      cases htext?
      rfl

end

end Lexer

end Edict
