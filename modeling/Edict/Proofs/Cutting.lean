import Edict.Proofs.Spans
import Edict.Token.Lexer

namespace Edict

namespace Lexer

/-! # Cutting text into words

What tokens a text has, but for their places, depends on the words that are read from it one after
the other and on nothing that stands before it.  So a text that begins with a word and goes on with
another text has the token of the word and those of the other text.

Main statements:

* `Cut.unique`: a text is cut in at most one way;
* `cut_readLexeme_iff`: the tokens of a text are the words that it is cut into, wherever it starts.
-/

/-- How a word is read at the start of a text. -/
abbrev Reader : Type := Char → List Char → Except (LexErrorKind × List Char) Lexeme

variable {read : Reader}

/-- A text is cut into words, with separators between them; a word is a token without its place. -/
inductive Cut (read : Reader) : List Char → List Token → Prop
  | nil : Cut read [] []
  | separator {c : Char} {cs : List Char} {words : List Token} (hc : Text.isSeparator c = true)
      (h : Cut read cs words) : Cut read (c :: cs) words
  | word {c : Char} {cs : List Char} {lexeme : Lexeme} {words : List Token}
      (hc : Text.isSeparator c = false) (hread : read c cs = .ok lexeme)
      (h : Cut read lexeme.rest words) :
      Cut read (c :: cs) (⟨lexeme.kind, lexeme.text?, .origin⟩ :: words)

/-- There is no choice in how a text is cut. -/
theorem Cut.unique {cs : List Char} {words words' : List Token} (h : Cut read cs words)
    (h' : Cut read cs words') : words = words' := by
  induction h generalizing words' with
  | nil =>
    cases h'
    rfl
  | separator hc _ ih =>
    cases h' with
    | separator _ h' => exact ih h'
    | word hc' _ _ =>
      rw [hc] at hc'
      cases hc'
  | word hc hread _ ih =>
    cases h' with
    | separator hc' _ =>
      rw [hc] at hc'
      cases hc'
    | word _ hread' h' =>
      rw [hread] at hread'
      cases hread'
      rw [ih h']

/-! ## Words in front -/

/-- The text `chars` is read as `word` in front of `rest`. -/
def ReadsWord (read : Reader) (chars : List Char) (word : Token) (rest : List Char) : Prop :=
  ∃ c cs, chars = c :: cs ∧ Text.isSeparator c = false ∧ word.span = .origin ∧
    read c (cs ++ rest) = .ok ⟨word.kind, word.text?, chars, rest⟩

theorem ReadsWord.cut {chars rest : List Char} {word : Token} {words : List Token}
    (h : ReadsWord read chars word rest) (hrest : Cut read rest words) :
    Cut read (chars ++ rest) (word :: words) := by
  rcases h with ⟨c, cs, rfl, hc, hspan, hread⟩
  have hword : word = ⟨word.kind, word.text?, .origin⟩ := by
    rw [← hspan]
  rw [hword]
  exact .word hc hread hrest

/-! ## Tokens -/

/-- The tokens of a text are the words that it is cut into, wherever it starts. -/
theorem cut_readLexeme_iff {start : Nat} {cs : List Char} {words : List Token} :
    Cut readLexeme cs words ↔
      ∃ tokens, scan start cs = (tokens, none) ∧ tokens.map Token.bare = words := by
  -- Scanning and cutting take the same words off; where no word can be read, there is no cut.
  fun_induction scan start cs generalizing words with
  | case1 start =>
    constructor
    · intro h
      cases h
      exact ⟨[], rfl, rfl⟩
    · rintro ⟨tokens, hscan, rfl⟩
      cases hscan
      exact .nil
  | case2 start c cs hc ih =>
    rw [← ih]
    constructor
    · intro h
      cases h with
      | separator _ h => exact h
      | word hc' _ _ =>
        rw [hc] at hc'
        cases hc'
    · exact .separator hc
  | case3 start c cs hc kind chars hread =>
    constructor
    · intro h
      cases h with
      | separator hc' _ => exact absurd hc' hc
      | word _ hread' _ =>
        rw [hread] at hread'
        cases hread'
    · rintro ⟨tokens, hscan, -⟩
      cases hscan
  | case4 start c cs hc lexeme hread stop others failure? hscan =>
    rename_i ih
    constructor
    · intro h
      cases h with
      | separator hc' _ => exact absurd hc' hc
      | word _ hread' hrest =>
        rw [hread] at hread'
        cases hread'
        rcases ih.mp hrest with ⟨tokens, hscan', rfl⟩
        rw [hscan] at hscan'
        cases hscan'
        exact ⟨_, rfl, rfl⟩
    · rintro ⟨tokens, htokens, rfl⟩
      cases htokens
      exact .word (Bool.eq_false_iff.mpr hc) hread (ih.mpr ⟨others, hscan, rfl⟩)

end Lexer

open Lexer

/-- A text has tokens if it can be cut, and then they are its words. -/
theorem cut_toList_iff {text : String} {words : List Token} :
    Cut readLexeme text.toList words ↔
      ∃ tokens, tokenize text = .ok tokens ∧ tokens.map Token.bare = words := by
  rw [@cut_readLexeme_iff 0, tokenize]
  split
  · next kept hscan => simp [hscan]
  · next kept e hscan => simp [hscan]

end Edict
