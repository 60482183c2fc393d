import Edict.Proofs.Patterns

namespace Edict

namespace Lexer

/-! # One character behind a word

What is read at a place is made of the characters of the word and of one look at the character
behind them.  So anything may be put in the place of what follows a word, as long as it starts with
the same character, or with one that no word goes on with, or there is nothing of it.

Main statement: `readLexeme_behind`.
-/

/-! ## Characters that end a word -/

/-- No word goes on with the character. -/
structure Breaks (d : Char) : Prop where
  numeric : isNumeric d = false
  wordPart : isWordPart d = false
  /-- It is not the second one of an operator. -/
  second : d ∉ ['=', '&', '|', '>']

/-- A symbol of two characters ends in one of these four. -/
theorem mem_of_pairKind? {c d : Char} {kind : TokenKind} (h : pairKind? c d = some kind) :
    d ∈ ['=', '&', '|', '>'] := by
  unfold pairKind? at h
  split at h
  · decide
  · decide
  · decide
  · decide
  · decide
  · decide
  · decide
  · cases h

/-- A character that breaks tokens off is no second character of a symbol. -/
theorem Breaks.pairKind?_eq_none {d : Char} (h : Breaks d) (c : Char) : pairKind? c d = none := by
  cases hpair : pairKind? c d with
  | none => rfl
  | some kind => exact absurd (mem_of_pairKind? hpair) h.second

theorem breaks_comma : Breaks ',' := ⟨rfl, rfl, by decide⟩

theorem breaks_colon : Breaks ':' := ⟨rfl, rfl, by decide⟩

/-- A separator breaks every token off. -/
theorem breaks_of_isSeparator {d : Char} (h : Text.isSeparator d = true) : Breaks d := by
  rcases isSeparator_iff.mp h with rfl | rfl | rfl | rfl | rfl
  all_goals exact ⟨rfl, rfl, by decide⟩

theorem breaks_space : Breaks ' ' := breaks_of_isSeparator rfl

/-! ## Other texts behind a word -/

/-- A word that ends in front of `rest` ends in front of `rest'` too. -/
def Parts (rest rest' : List Char) : Prop := ∀ d ∈ rest'.head?, rest.head? = some d ∨ Breaks d

/-- What is left of a text that ends early starts as the text does. -/
theorem parts_front (front rest : List Char) : Parts (front ++ rest) front := by
  intro d hd
  cases front with
  | nil => cases hd
  | cons c cs => exact .inl hd

/-- A text that is put behind what follows makes no difference, if it starts so. -/
theorem parts_append {d : Char} (hd : Breaks d) (rest more : List Char) :
    Parts rest (rest ++ d :: more) := by
  intro e he
  cases rest with
  | nil =>
    cases he
    exact .inr hd
  | cons c cs => exact .inl he

/-! ## Runs of characters -/

section

variable {p : Char → Bool} {cs rest : List Char}

/-- A run of characters ends where the text goes on with another one. -/
theorem takeWhile_run (h : ∀ c ∈ cs, p c = true) (hrest : ∀ c ∈ rest.head?, p c = false) :
    (cs ++ rest).takeWhile p = cs ∧ (cs ++ rest).dropWhile p = rest := by
  rw [List.takeWhile_append_of_pos h, List.dropWhile_append_of_pos h]
  cases rest with
  | nil => simp
  | cons d ds => simp [hrest d rfl]

/-- It ends there in front of another text too. -/
theorem takeWhile_behind (hbreaks : ∀ d, Breaks d → p d = false)
    (hparts : Parts (cs.dropWhile p) rest) :
    (cs.takeWhile p ++ rest).takeWhile p = cs.takeWhile p ∧
      (cs.takeWhile p ++ rest).dropWhile p = rest := by
  refine takeWhile_run (List.all_eq_true.mp List.all_takeWhile) fun d hd => ?_
  rcases hparts d hd with hsame | hbreak
  · have hstop := List.head?_dropWhile_not p cs
    rw [hsame] at hstop
    exact hstop
  · exact hbreaks d hbreak

end

/-! ## The first character tells what is read -/

section

variable {c : Char}

/-- The first character decides which of the readers reads. -/
theorem readLexeme_of_isDigit (h : isDigit c = true) : readLexeme c = readNumber c := by
  funext cs
  rw [readLexeme, if_pos h]

theorem readLexeme_of_isWordStart (h : isWordStart c = true) :
    readLexeme c = fun cs => .ok (readWord c cs) := by
  have hdigit : ¬isDigit c = true := fun hc => by simp [not_isWordStart_of_isDigit hc] at h
  funext cs
  rw [readLexeme, if_neg hdigit, if_pos h]

theorem readLexeme_of_isQuote (h : isQuote c = true) : readLexeme c = readString c := by
  rcases isQuote_iff.mp h with rfl | rfl
  · rfl
  · rfl

theorem readLexeme_of_symbol (hdigit : isDigit c = false) (hstart : isWordStart c = false)
    (hquote : isQuote c = false) : readLexeme c = readSymbol c := by
  funext cs
  simp [readLexeme, hdigit, hstart, hquote]

end

/-! ## Words in front of another text -/

/-- The word that `read` finds in `c :: cs` is found in front of every text that parts from it as
what follows does. -/
def ReadsBehind (read : List Char → Except (LexErrorKind × List Char) Lexeme) (c : Char)
    (cs : List Char) (lexeme : Lexeme) : Prop :=
  ∃ tail, lexeme.chars = c :: tail ∧ cs = tail ++ lexeme.rest ∧
    ∀ rest, Parts lexeme.rest rest → read (tail ++ rest) = .ok { lexeme with rest }

section

variable {c : Char} {cs : List Char} {lexeme : Lexeme}

/-- A number is read the same in front of anything that does not go on with it. -/
theorem readNumber_behind (h : readNumber c cs = .ok lexeme) :
    ReadsBehind (readNumber c) c cs lexeme := by
  have hrun : ∀ rest, Parts (cs.dropWhile isNumeric) rest → _ :=
    fun rest => takeWhile_behind fun d hd => hd.numeric
  dsimp only [readNumber] at h
  split at h
  · next hcount =>
    cases h
    refine ⟨_, rfl, List.takeWhile_append_dropWhile.symm, fun rest hparts => ?_⟩
    simp only [readNumber, (hrun rest hparts).1, (hrun rest hparts).2, hcount]
  · next hcount =>
    cases h
    refine ⟨_, rfl, List.takeWhile_append_dropWhile.symm, fun rest hparts => ?_⟩
    simp only [readNumber, (hrun rest hparts).1, (hrun rest hparts).2, hcount]
  · cases h

/-- So is a word. -/
theorem readWord_behind (c : Char) (cs : List Char) :
    ReadsBehind (fun cs => .ok (readWord c cs)) c cs (readWord c cs) := by
  refine ⟨_, rfl, List.takeWhile_append_dropWhile.symm, fun rest hparts => ?_⟩
  rcases takeWhile_behind (fun d hd => hd.wordPart) hparts with ⟨htake, hdrop⟩
  simp only [readWord, htake, hdrop]

/-- A string ends with its quote, whatever stands behind it. -/
theorem readString_behind {quote : Char} (hquote : isQuote quote = true)
    (h : readString quote cs = .ok lexeme) : ReadsBehind (readString quote) quote cs lexeme := by
  unfold readString at h
  split at h
  · next body unread hbody =>
    cases h
    rcases exists_pieces_of_stringBody hbody with ⟨pieces, hpieces, rfl⟩
    refine ⟨_, rfl, (stringBody_append hbody).symm, fun rest _ => ?_⟩
    rw [readString, List.append_assoc, List.singleton_append,
      stringBody_of_pieces (ne_escape_of_isQuote hquote) hpieces]
  · cases h

/-- So is a symbol. -/
theorem readSymbol_behind (h : readSymbol c cs = .ok lexeme) :
    ReadsBehind (readSymbol c) c cs lexeme := by
  rcases readSymbol_eq_ok h with ⟨d, ds, kind, rfl, hpair, rfl⟩ | ⟨hsecond, kind, hsingle, rfl⟩
  · refine ⟨[d], rfl, rfl, fun rest _ => ?_⟩
    rw [List.singleton_append, readSymbol, List.head?_cons, Option.bind_some, hpair]
    rfl
  · refine ⟨[], rfl, rfl, fun rest hparts => ?_⟩
    have hnone : (rest.head?.bind fun d => (pairKind? c d).map (·, d)) = none := by
      cases rest with
      | nil => rfl
      | cons d ds =>
        rcases hparts d rfl with hsame | hbreak
        · rcases List.head?_eq_some_iff.mp hsame with ⟨es, rfl⟩
          simp [hsecond d es rfl]
        · simp [hbreak.pairKind?_eq_none c]
    rw [List.nil_append, readSymbol, hnone, hsingle]

/-- What is read at a place is read there too if what stands behind it is replaced by a text that
parts from it in the same way. -/
theorem readLexeme_behind (h : readLexeme c cs = .ok lexeme) :
    ReadsBehind (readLexeme c) c cs lexeme := by
  cases hdigit : isDigit c with
  | true =>
    rw [readLexeme_of_isDigit hdigit] at h ⊢
    exact readNumber_behind h
  | false =>
    cases hstart : isWordStart c with
    | true =>
      rw [readLexeme_of_isWordStart hstart] at h ⊢
      cases h
      exact readWord_behind c cs
    | false =>
      cases hquote : isQuote c with
      | true =>
        rw [readLexeme_of_isQuote hquote] at h ⊢
        exact readString_behind hquote h
      | false =>
        rw [readLexeme_of_symbol hdigit hstart hquote] at h ⊢
        exact readSymbol_behind h

end

end Lexer

end Edict
