import Edict.Proofs.Lookahead
import Edict.Proofs.Reading
import Edict.Proofs.Words

namespace Edict

open Lexer Edict.Parser Grammar

/-! # Printed expressions are read back

Text that an expression is printed as is read as this expression, if its leaves have a spelling of
their own (`Legible`): whole numbers without a sign, truth values, `null`, names, and strings of
characters that are shown as they are.  Members must be written so that no point runs into the
digits of a number.

Main statements:

* `knows_readLexeme`: the lexer knows these leaves;
* `parse_text_of_legible`: the text of a legible expression is read as that expression.
-/

/-! ## Names -/

/-- A name that is a word of its own, and not one that stands for a value. -/
structure IsName (name : String) : Prop where
  identifier : name.toList ∈ Pattern.identifier.language
  notValue : name ∉ ["true", "false", "null"]

/-- Whether the characters are a word of their own. -/
def isWord : List Char → Bool
  | [] => false
  | c :: cs => isWordStart c && cs.all isWordPart

/-- A name is a word. -/
theorem mem_identifier_iff_isWord {w : List Char} :
    w ∈ Pattern.identifier.language ↔ isWord w = true := by
  cases w with
  | nil =>
    constructor
    · intro h
      rcases exists_cons_of_mem h with ⟨c, cs, heq, -⟩
      cases heq
    · intro h
      cases h
  | cons c cs =>
    rw [mem_identifier_iff, isWord, Bool.and_eq_true, List.all_eq_true]

instance (name : String) : Decidable (IsName name) :=
  decidable_of_iff (isWord name.toList = true ∧ name ∉ ["true", "false", "null"]) <| by
    rw [← mem_identifier_iff_isWord]
    exact ⟨fun h => ⟨h.1, h.2⟩, fun h => ⟨h.identifier, h.notValue⟩⟩

/-- A word is read up to what is not part of it. -/
theorem readsWord_identifier {name : String} {rest : List Char}
    (h : name.toList ∈ Pattern.identifier.language)
    (hrest : ∀ c ∈ rest.head?, isWordPart c = false) :
    ReadsWord readLexeme name.toList
      ⟨if name = "true" || name = "false" then .bool else .identifier, some name, .origin⟩ rest := by
  rcases mem_oneOf_mul.mp h with ⟨c, cs, hname, hc, hparts⟩
  rcases takeWhile_run (mem_kstar_oneOf.mp hparts) hrest with ⟨htake, hdrop⟩
  have hseparator := not_isSeparator_of_starts (p := .identifier) hc
  have hback : String.ofList (c :: cs) = name := by
    rw [← hname, String.ofList_toList]
  refine ⟨c, cs, hname, hseparator, rfl, ?_⟩
  rw [readLexeme_of_isWordStart hc]
  simp only [readWord, htake, hdrop, hback, hname]

/-! ## Numbers -/

/-- The digits of a number are digits to the lexer. -/
theorem isDigit_of_mem_toDigits {n : Nat} {c : Char} (h : c ∈ Nat.toDigits 10 n) :
    isDigit c = true :=
  Nat.isDigit_of_mem_toDigits (by decide) (by decide) h

/-- Digits write the number that they are the digits of. -/
theorem digits?_eq {cs : List Char} (h : ∀ c ∈ cs, isDigit c = true) (value : Nat) :
    digits? value cs = some (Nat.ofDigitChars 10 cs value) := by
  induction cs generalizing value with
  | nil => rfl
  | cons c cs ih =>
    have hc := isDigit_iff.mp (h c List.mem_cons_self)
    have hdigit : digit? c = some (c.toNat - '0'.toNat) := by
      have hbounds : '0' ≤ c ∧ c ≤ '9' := by
        simpa [isDigit] using h c List.mem_cons_self
      rw [digit?, if_pos hbounds]
    rw [digits?, hdigit, Nat.ofDigitChars_cons]
    exact ih (fun d hd => h d (List.mem_cons_of_mem c hd)) _

/-- The digits of a number are read as that number. -/
theorem decimal?_toDigits (n : Nat) : decimal? (Nat.toDigits 10 n) = some n := by
  have hdigits := digits?_eq (fun c hc => isDigit_of_mem_toDigits (n := n) hc) 0
  rw [Nat.ofDigitChars_toDigits (by decide) (by decide)] at hdigits
  cases htext : Nat.toDigits 10 n with
  | nil => exact absurd htext Nat.toDigits_ne_nil
  | cons c cs =>
    rw [htext] at hdigits
    exact hdigits

/-- A number without a sign has the digits of a natural number. -/
theorem toDigits_of_nonneg {v : Int32} (h : 0 ≤ v) :
    ∃ n : Nat, v.toInt = n ∧ (toString v.toInt).toList = Nat.toDigits 10 n := by
  have hnonneg : 0 ≤ v.toInt := Int32.le_iff_toInt_le.mp h
  refine ⟨v.toInt.toNat, by omega, ?_⟩
  have hcast : v.toInt = (v.toInt.toNat : Int) := by omega
  rw [hcast, Int.toNat_natCast]
  show (v.toInt.toNat.repr).toList = _
  rw [Nat.toList_repr]

/-- A text that starts with a digit has no sign. -/
theorem cutSign_of_isDigit {c : Char} (h : isDigit c = true) (cs : List Char) :
    cutSign (c :: cs) = (false, c :: cs) := by
  unfold cutSign
  split
  · next heq =>
    cases heq
    cases h
  · next heq =>
    cases heq
    cases h
  · rfl

/-- Where a digit comes first, there is no sign. -/
theorem integer?_of_isDigit {c : Char} (h : isDigit c = true) (cs : List Char) :
    integer? (c :: cs) = (decimal? (c :: cs)).map fun n : Nat => (n : Int) := by
  rw [integer?, cutSign_of_isDigit h]
  rfl

theorem integer?_toDigits (n : Nat) : integer? (Nat.toDigits 10 n) = some (n : Int) := by
  have hdecimal := decimal?_toDigits n
  have hdigits : ∀ c ∈ Nat.toDigits 10 n, isDigit c = true := fun c hc => isDigit_of_mem_toDigits hc
  cases htext : Nat.toDigits 10 n with
  | nil => exact absurd htext Nat.toDigits_ne_nil
  | cons c cs =>
    rw [htext] at hdecimal hdigits
    rw [integer?_of_isDigit (hdigits c List.mem_cons_self), hdecimal]
    rfl

/-- An integer that is not negative is read back from its text. -/
theorem intLiteral?_of_nonneg {v : Int32} (h : 0 ≤ v) :
    intLiteral? (toString v.toInt) = some v := by
  rcases toDigits_of_nonneg h with ⟨n, hn, hdigits⟩
  have hlow := Int32.le_toInt v
  have hhigh := Int32.toInt_lt v
  rw [intLiteral?, hdigits, integer?_toDigits, Option.bind_some, int32?, ← hn, Int32.ofInt_toInt,
    if_pos]
  constructor
  · omega
  · omega

/-- A number is read up to what is no digit of it. -/
theorem readsWord_int {v : Int32} (h : 0 ≤ v) {rest : List Char}
    (hrest : ∀ c ∈ rest.head?, isNumeric c = false) :
    ReadsWord readLexeme (toString v.toInt).toList ⟨.int, some (toString v.toInt), .origin⟩ rest := by
  rcases toDigits_of_nonneg h with ⟨n, -, hdigits⟩
  have hall : ∀ c ∈ (toString v.toInt).toList, isDigit c = true := by
    rw [hdigits]
    exact fun c hc => isDigit_of_mem_toDigits hc
  have hne : (toString v.toInt).toList ≠ [] := by
    rw [hdigits]
    exact Nat.toDigits_ne_nil
  rcases List.exists_cons_of_ne_nil hne with ⟨c, cs, hcs⟩
  rw [hcs] at hall
  have hc : isDigit c = true := hall c List.mem_cons_self
  have hnumeric : ∀ d ∈ cs, isNumeric d = true := by
    intro d hd
    exact isNumeric_iff.mpr (.inl (hall d (List.mem_cons_of_mem c hd)))
  -- A run of digits without a point is an integer.
  have hpoints : (c :: cs).count '.' = 0 := by
    refine List.count_eq_zero.mpr fun hpoint => ?_
    exact absurd (hall '.' hpoint) (by decide)
  have hseparator := not_isSeparator_of_starts (p := .int) hc
  have hback : String.ofList (c :: cs) = toString v.toInt := by
    rw [← hcs, String.ofList_toList]
  rcases takeWhile_run hnumeric hrest with ⟨htake, hdrop⟩
  refine ⟨c, cs, hcs, hseparator, rfl, ?_⟩
  rw [readLexeme_of_isDigit hc]
  simp only [readNumber, htake, hdrop, hpoints, hback, hcs]

/-! ## Strings -/

/-- A character that strings show as it is, or behind a backslash. -/
def IsShown (c : Char) : Prop := 32 ≤ c.toNat ∧ c.toNat ≤ 126

instance : DecidablePred IsShown := fun _ => inferInstanceAs (Decidable (_ ∧ _))

/-- How a character is written is a piece of a string, and stands for the character. -/
theorem piece_escapeChar {c : Char} (h : IsShown c) :
    (Text.escapeChar '"' c).toList ∈ piece '"' ∧
      (Text.escapeChar '"' c).toList.getLast? = some c := by
  have hne : ∀ d : Char, d.toNat < 32 → c ≠ d := by
    rintro d hd rfl
    have hle := h.1
    omega
  have hprintable : Text.isPrintable c = true := by
    have hlt : c.toNat < 0x7f := Nat.lt_succ_of_le h.2
    rw [Text.isPrintable, if_pos hlt]
    exact decide_eq_true h.1
  rw [Text.escapeChar, if_neg (hne '\x00' (by decide)), if_neg (hne '\t' (by decide)),
    if_neg (hne '\r' (by decide)), if_neg (hne '\n' (by decide))]
  by_cases hescape : c = '\\'
  · rw [if_pos hescape, hescape]
    exact ⟨mem_piece_iff.mpr (.inr ⟨'\\', rfl⟩), rfl⟩
  · rw [if_neg hescape]
    by_cases hquote : c = '"'
    · rw [if_pos hquote, hquote]
      exact ⟨mem_piece_iff.mpr (.inr ⟨'"', rfl⟩), rfl⟩
    · rw [if_neg hquote, if_pos hprintable, String.toList_singleton]
      exact ⟨mem_piece_iff.mpr (.inl ⟨c, hquote, hescape, rfl⟩), rfl⟩

/-- A quoted text is its characters, each escaped if need be, between quotes. -/
theorem toList_quoted (text : String) :
    (Text.quoted text).toList
      = '"' :: ((text.toList.map fun c => (Text.escapeChar '"' c).toList).flatten ++ ['"']) := by
  have hfold : ∀ (cs : List Char) (start : String),
      (cs.foldl (fun out c => out ++ Text.escapeChar '"' c) start).toList
        = start.toList ++ (cs.map fun c => (Text.escapeChar '"' c).toList).flatten := by
    intro cs
    induction cs with
    | nil => simp
    | cons c cs ih =>
      intro start
      rw [List.foldl_cons, ih, String.toList_append, List.map_cons, List.flatten_cons,
        List.append_assoc]
  simp [Text.quoted, hfold]

/-- A string in quotes is read to its end, and its contents are what was written. -/
theorem readsWord_quoted {text : String} (h : ∀ c ∈ text.toList, IsShown c) (rest : List Char) :
    ReadsWord readLexeme (Text.quoted text).toList ⟨.str, some text, .origin⟩ rest := by
  let pieces : List (List Char) := text.toList.map fun c => (Text.escapeChar '"' c).toList
  have hpieces : ∀ x ∈ pieces, x ∈ piece '"' := by
    intro x hx
    rcases List.mem_map.mp hx with ⟨c, hc, rfl⟩
    exact (piece_escapeChar (h c hc)).1
  have hcontents : pieces.filterMap List.getLast? = text.toList := by
    have hlast : ∀ c ∈ text.toList,
        (List.getLast? ∘ fun c => (Text.escapeChar '"' c).toList) c = some c :=
      fun c hc => (piece_escapeChar (h c hc)).2
    rw [List.filterMap_map, List.filterMap_congr hlast, List.filterMap_some]
  have hquote : '"' ≠ '\\' := by decide
  have hbody := stringBody_of_pieces hquote hpieces rest
  refine ⟨'"', pieces.flatten ++ ['"'], toList_quoted text, rfl, rfl, ?_⟩
  have happend : pieces.flatten ++ ['"'] ++ rest = pieces.flatten ++ '"' :: rest := by simp
  rw [happend]
  show readString '"' _ = _
  rw [readString, hbody]
  simp only [List.dropLast_concat, unescape_flatten hpieces, hcontents, String.ofList_toList,
    toList_quoted]
  rfl

/-! ## Legible expressions -/

/-- Leaves that have a spelling of their own. -/
inductive IsPlain : Node → Prop
  | int {v : Int32} (h : 0 ≤ v) : IsPlain (.int v)
  | bool (b : Bool) : IsPlain (.bool b)
  | null : IsPlain .null
  | str {s : String} (h : ∀ c ∈ s.toList, IsShown c) : IsPlain (.str s)
  | ident {name : String} (h : IsName name) : IsPlain (.ident name)

/-- Expressions whose leaves have a spelling of their own, whose objects have a name for a type or
none, and in which no point stands behind the digits of a number or in front of another member. -/
abbrev Node.Legible (n : Node) : Prop := Written IsPlain IsName n

/-- The lexer knows the leaves and names of legible expressions. -/
theorem knows_readLexeme : Knows readLexeme IsPlain IsName := by
  -- A name that is none of the words for values is read as an identifier.
  have hname : ∀ name rest, IsName name → (∀ c ∈ rest.head?, isWordPart c = false) →
      ReadsWord readLexeme name.toList (.name name) rest := by
    intro name rest h hrest
    have hword := readsWord_identifier h.identifier hrest
    have hvalue := h.notValue
    simp only [List.mem_cons, not_or] at hvalue
    simpa [Token.name, hvalue.1, hvalue.2.1] using hword
  constructor
  · intro c cs hdigit hstart hquote
    rw [readLexeme_of_symbol hdigit hstart hquote]
  · intro n rest h hfollows
    cases h with
    | @int v h =>
      refine ⟨_, rfl, by simp, readsWord_int h fun c hc => ?_⟩
      rcases hfollows c hc with ⟨hpart, hpoint⟩
      have hdigit : isDigit c = false := (Bool.or_eq_false_iff.mp hpart).2
      have hne : c ≠ '.' := by
        intro heq
        cases hpoint heq
      simp [isNumeric, hdigit, hne]
    | bool b =>
      have hword : ∀ w : String, isWord w.toList = true →
          ReadsWord readLexeme w.toList
            ⟨if w = "true" || w = "false" then .bool else .identifier, some w, .origin⟩ rest :=
        fun w hw => readsWord_identifier (mem_identifier_iff_isWord.mpr hw)
          fun c hc => (hfollows c hc).1
      refine ⟨_, rfl, by simp, ?_⟩
      cases b with
      | true => exact hword "true" (by decide)
      | false => exact hword "false" (by decide)
    | null =>
      have hnull : "null".toList ∈ Pattern.identifier.language :=
        mem_identifier_iff_isWord.mpr (by decide)
      exact ⟨_, rfl, by simp [Token.name],
        readsWord_identifier hnull fun c hc => (hfollows c hc).1⟩
    | @str s h => exact ⟨_, rfl, by simp, readsWord_quoted h rest⟩
    | @ident name h =>
      exact ⟨_, rfl, by simp [Token.name], hname name rest h fun c hc => (hfollows c hc).1⟩
  · exact hname
  · intro element hvoid hobject
    cases element with
    | void => exact absurd rfl hvoid
    | object => exact absurd rfl hobject
    | int | float | bool | string => decide

/-- A leaf that has a spelling of its own is what its word stands for. -/
theorem atom_of_isPlain {n : Node} (h : IsPlain n) : Atom n.words n := by
  cases h with
  | @int v h =>
    rcases toDigits_of_nonneg h with ⟨k, hk, hdigits⟩
    refine .leaf ?_
    show (integer? (toString v.toInt).toList).map (fun z => Node.int (.ofInt z)) = _
    rw [hdigits, integer?_toDigits, Option.map_some, ← hk, Int32.ofInt_toInt]
  | bool b =>
    refine .leaf ?_
    cases b with
    | true => rfl
    | false => rfl
  | null => exact .leaf rfl
  | str h => exact .leaf rfl
  | @ident name h =>
    have hnull : name ≠ "null" := by
      rintro rfl
      exact h.notValue (by decide)
    refine .leaf ?_
    show some (if name = "null" then Node.null else .ident name) = _
    rw [if_neg hnull]

theorem integersFit_of_isPlain {n : Node} (h : IsPlain n) : IntegersFit n.words := by
  cases h with
  | @int v h =>
    intro t ht _
    rw [List.mem_singleton.mp ht]
    show (intLiteral? (toString v.toInt)).isSome = true
    rw [intLiteral?_of_nonneg h]
    rfl
  | bool _ | null | str _ | ident _ =>
    intro t ht hkind
    rw [List.mem_singleton.mp ht] at hkind
    cases hkind

/-- The text of a legible expression is read as that expression. -/
theorem parse_text_of_legible {n : Node} (h : n.Legible) :
    ∃ tokens, tokenize n.text = .ok tokens ∧ parseSingleExpression tokens = .ok n := by
  have hcut := Written.cut knows_readLexeme h [] [] .nil follows_nil
  rw [List.append_nil, List.append_nil] at hcut
  rcases cut_toList_iff.mp hcut with ⟨tokens, htokens, hwords⟩
  have hfit : IntegersFit n.words := by
    refine h.forall_words ?_ ?_ fun n hn => integersFit_of_isPlain hn
    · rintro kind hvalue rfl
      cases hvalue
    · intro name hkind
      cases hkind
  have hparse : parseSingleExpression n.words = .ok n :=
    parseSingleExpression_of_single (.bare (h.expr fun _ => atom_of_isPlain)) hfit
  refine ⟨tokens, htokens, parseSingleExpression_congr ?_ hparse⟩
  rw [← hwords, List.map_map]
  rfl

/-- A choice between a typed list, with a sign and members by index, and a new object with a string
that has both quotes and a backslash in it. -/
theorem parse_text_of_legible_choice :
    let items : List Node := [.apply .neg [.int 1],
      .apply .member [.apply .member [.ident "a", .ident "b"], .int 2]]
    let fields : List Node := [.apply .assign [.ident "x", .str "\"\\'"]]
    let n : Node := .apply .ternary [.apply .and [.apply .not [.ident "a"], .bool true],
      .list .int items, .construct "P" fields]
    n.Legible ∧
      n.text = "(((!a) && true) ? int[(-1), a.b.2] : P\x7b(x = \"\\\"\\\\'\")\x7d)" ∧
      ∃ tokens, tokenize n.text = .ok tokens ∧ parseSingleExpression tokens = .ok n := by
  intro items fields n
  have hname : ∀ name, IsName name → Written IsPlain IsName (.ident name) := fun _ h => .leaf (.ident h)
  have hint : ∀ v : Int32, 0 ≤ v → Written IsPlain IsName (.int v) := fun _ h => .leaf (.int h)
  have hmember : Written IsPlain IsName
      (.apply .member [.apply .member [.ident "a", .ident "b"], .int 2]) :=
    .member rfl rfl (.member rfl rfl (hname "a" (by decide)) (hname "b" (by decide)))
      (hint 2 (by decide))
  have hlist : Written IsPlain IsName (.list .int items) := by
    refine .list (by decide) ?_
    simp only [items, List.forall_mem_cons]
    exact ⟨.unary (.inl rfl) (hint 1 (by decide)), hmember, by simp⟩
  have hobject : Written IsPlain IsName (.construct "P" fields) := by
    refine .construct (.inr (by decide)) ?_
    simp only [fields, List.forall_mem_cons]
    have hshown : ∀ c ∈ ['"', '\\', '\''], IsShown c := by
      simp only [List.forall_mem_cons]
      exact ⟨by decide, by decide, by decide, List.forall_mem_nil _⟩
    have hstring : Written IsPlain IsName (.str "\"\\'") := .leaf (.str hshown)
    exact ⟨.binary rfl (by decide) (hname "x" (by decide)) hstring, by simp⟩
  have hcondition : Written IsPlain IsName (.apply .and [.apply .not [.ident "a"], .bool true]) :=
    .binary rfl (by decide) (.unary (.inr (.inr rfl)) (hname "a" (by decide))) (.leaf (.bool true))
  have hlegible : n.Legible := .ternary hcondition hlist hobject
  exact ⟨hlegible, by decide +kernel, parse_text_of_legible hlegible⟩

end Edict
