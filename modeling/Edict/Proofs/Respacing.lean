import Edict.Proofs.Cutting
import Edict.Proofs.Lookahead
import Edict.Proofs.Partition

namespace Edict

/-! # Separators between tokens

How many separators stand between two tokens, and which, makes no difference to what the tokens are,
nor to what they are read as.  One separator is enough where there were some, and where there were
none any number may be put in.

A text is compared with one that is spaced in another way along both of them (`Lexer.Respaced`).
Each of the two is cut into the same words, since a word ends where a separator starts and where the
next token starts that followed it before.

Main statements:

* `Lexer.exists_cut_of_respaced`: texts that are spaced in different ways are cut into the same
  words;
* `Lexer.respaced_self_iff`: a text can be spaced in other ways if it has tokens;
* `respaced_reads_alike`: tokens and what they are read as do not hang on the separators.
-/

namespace Lexer

/-! ## Words in front of other texts -/

section

variable {kind : TokenKind} {text? : Option String} {word rest rest' : List Char}

/-- A word that is a token is read as it. -/
theorem IsToken.exists_read (h : IsToken kind text? word rest) :
    ∃ c cs, word = c :: cs ∧ Text.isSeparator c = false ∧
      readLexeme c (cs ++ rest) = .ok ⟨kind, text?, word, rest⟩ := by
  rcases h.exists_cons with ⟨c, cs, rfl, hc⟩
  exact ⟨c, cs, rfl, hc, readLexeme_eq_ok_iff.mpr ⟨rfl, h⟩⟩

/-- A token is one in front of every text that parts from it as what follows does. -/
theorem IsToken.behind (h : IsToken kind text? word rest) (hparts : Parts rest rest') :
    IsToken kind text? word rest' := by
  rcases h.exists_read with ⟨c, cs, -, -, hread⟩
  rcases readLexeme_behind hread with ⟨tail, -, -, hbehind⟩
  exact readLexeme_isToken (hbehind rest' hparts)

/-- A token in front of a text is cut off. -/
theorem IsToken.cut (h : IsToken kind text? word rest) {words : List Token}
    (hrest : Cut readLexeme rest words) :
    Cut readLexeme (word ++ rest) (⟨kind, text?, .origin⟩ :: words) := by
  rcases h.exists_read with ⟨c, cs, rfl, hc, hread⟩
  exact .word hc hread hrest

end

/-! ## Spacing -/

/-- No token follows at once. -/
def Separated (cs : List Char) : Prop := ∀ c ∈ cs.head?, Text.isSeparator c = true

/-- The two texts have the same tokens.  Separators are left out and put in around them, but where
some stand between two tokens of the first text, some do in the second one. -/
inductive Respaced : List Char → List Char → Prop
  | nil : Respaced [] []
  | drop {c : Char} {cs cs' : List Char} (hc : Text.isSeparator c = true) (h : Respaced cs cs') :
      Respaced (c :: cs) cs'
  | insert {c : Char} {cs cs' : List Char} (hc : Text.isSeparator c = true) (h : Respaced cs cs') :
      Respaced cs (c :: cs')
  | token {kind : TokenKind} {text? : Option String} {word rest rest' : List Char}
      (hword : IsToken kind text? word rest) (hkept : Separated rest → Separated rest')
      (h : Respaced rest rest') : Respaced (word ++ rest) (word ++ rest')

theorem separated_cons {c : Char} (hc : Text.isSeparator c = true) (cs : List Char) :
    Separated (c :: cs) := by
  intro d hd
  cases hd
  exact hc

section

variable {cs cs' gap gap' rest rest' : List Char}

/-- A run of separators can be replaced by another one. -/
theorem Respaced.run (hgap : ∀ c ∈ gap, Text.isSeparator c = true)
    (hgap' : ∀ c ∈ gap', Text.isSeparator c = true) (h : Respaced cs cs') :
    Respaced (gap ++ cs) (gap' ++ cs') := by
  induction gap with
  | nil =>
    induction gap' with
    | nil => exact h
    | cons c gap' ih =>
      exact .insert (hgap' c List.mem_cons_self) (ih fun d hd => hgap' d (List.mem_cons_of_mem _ hd))
  | cons c gap ih =>
    exact .drop (hgap c List.mem_cons_self) (ih fun d hd => hgap d (List.mem_cons_of_mem _ hd))

/-- A word that ends in front of a text ends in front of the other one too. -/
theorem Respaced.parts (h : Respaced rest rest') (hkept : Separated rest → Separated rest') :
    Parts rest rest' := by
  intro d hd
  -- The second text starts with a separator, or with the token that the first one starts with.
  cases h with
  | nil => cases hd
  | drop hc _ =>
    have hseparated := hkept (separated_cons hc _)
    exact .inr (breaks_of_isSeparator (hseparated d hd))
  | insert hc _ =>
    cases hd
    exact .inr (breaks_of_isSeparator hc)
  | token hword _ _ =>
    rcases hword.exists_cons with ⟨c, tail, rfl, -⟩
    exact .inl hd

/-- Texts that are spaced in different ways are cut into the same words. -/
theorem exists_cut_of_respaced (h : Respaced cs cs') :
    ∃ words, Cut readLexeme cs words ∧ Cut readLexeme cs' words := by
  induction h with
  | nil => exact ⟨[], .nil, .nil⟩
  | drop hc _ ih =>
    rcases ih with ⟨words, hwords, hwords'⟩
    exact ⟨words, .separator hc hwords, hwords'⟩
  | insert hc _ ih =>
    rcases ih with ⟨words, hwords, hwords'⟩
    exact ⟨words, hwords, .separator hc hwords'⟩
  | token hword hkept hrest ih =>
    rcases ih with ⟨words, hwords, hwords'⟩
    exact ⟨_, hword.cut hwords, (hword.behind (hrest.parts hkept)).cut hwords'⟩

/-- A text can be spaced in other ways if it has tokens. -/
theorem respaced_self_iff : Respaced cs cs ↔ ∃ words, Cut readLexeme cs words := by
  constructor
  · intro h
    rcases exists_cut_of_respaced h with ⟨words, hwords, -⟩
    exact ⟨words, hwords⟩
  · rintro ⟨words, h⟩
    induction h with
    | nil => exact .nil
    | separator hc _ ih => exact .drop hc (.insert hc ih)
    | word hc hread _ ih =>
      rcases readLexeme_eq_ok_iff.mp hread with ⟨hsplit, hword⟩
      rw [← hsplit]
      exact .token hword id ih

end

end Lexer

/-! ## The whole text -/

open Lexer Edict.Parser

/-- The tokens are the same but for their places, and are read to the same trees and names, or to
the same errors but for the places in them. -/
structure ReadAlike (tokens tokens' : List Token) : Prop where
  words : tokens'.map Token.bare = tokens.map Token.bare
  instruction : bareOutcome ParsedInstruction.bare (parseInstruction tokens')
    = bareOutcome ParsedInstruction.bare (parseInstruction tokens)
  parameters : bareOutcome id (parseParameterList tokens')
    = bareOutcome id (parseParameterList tokens)
  expression : bareOutcome id (parseSingleExpression tokens')
    = bareOutcome id (parseSingleExpression tokens)

/-- Tokens that differ in their places alone are read alike. -/
theorem readAlike_of_bare {tokens tokens' : List Token}
    (h : tokens'.map Token.bare = tokens.map Token.bare) : ReadAlike tokens tokens' := by
  refine ⟨h, ?_, ?_, ?_⟩
  · rw [← parseInstruction_bare, h, parseInstruction_bare]
  · rw [← parseParameterList_bare, h, parseParameterList_bare]
  · rw [← parseSingleExpression_bare, h, parseSingleExpression_bare]

/-- A text that has tokens has the same ones, but for their places, if it is spaced in another way,
and they are read in the same way. -/
theorem respaced_reads_alike {text text' : String} {tokens : List Token}
    (h : tokenize text = .ok tokens) (hspace : Respaced text.toList text'.toList) :
    ∃ tokens', tokenize text' = .ok tokens' ∧ ReadAlike tokens tokens' := by
  rcases exists_cut_of_respaced hspace with ⟨words, hwords, hwords'⟩
  obtain rfl : words = tokens.map Token.bare := hwords.unique (cut_toList_iff.mpr ⟨tokens, h, rfl⟩)
  rcases cut_toList_iff.mp hwords' with ⟨tokens', htokens', hsame⟩
  exact ⟨tokens', htokens', readAlike_of_bare hsame⟩

/-- The blank in front of the sign becomes two line breaks, and blanks are put in around the
others. -/
theorem respaced_sign :
    ∃ tokens', tokenize "\ta\n\n- 1 " = .ok tokens' ∧
      ReadAlike [⟨.identifier, some "a", ⟨0, 1⟩⟩, ⟨.sub, none, ⟨2, 3⟩⟩, ⟨.int, some "1", ⟨3, 4⟩⟩]
        tokens' := by
  have hname : readLexeme 'a' " -1".toList = .ok ⟨.identifier, some "a", ['a'], " -1".toList⟩ := by
    rfl
  have hsign : readLexeme '-' ['1'] = .ok ⟨.sub, none, ['-'], ['1']⟩ := by rfl
  have hdigit : readLexeme '1' [] = .ok ⟨.int, some "1", ['1'], []⟩ := by rfl
  have hfromDigit : Respaced "1".toList "1 ".toList :=
    .token (readLexeme_isToken hdigit) (fun _ => separated_cons rfl _) (.insert rfl .nil)
  have hfromSign : Respaced "-1".toList "- 1 ".toList :=
    .token (readLexeme_isToken hsign) (fun _ => separated_cons rfl _) (.insert rfl hfromDigit)
  have hfromGap : Respaced ([' '] ++ "-1".toList) (['\n', '\n'] ++ "- 1 ".toList) :=
    .run (by simp [Text.isSeparator]) (by simp [Text.isSeparator]) hfromSign
  have hspace : Respaced "a -1".toList "\ta\n\n- 1 ".toList :=
    .insert rfl (.token (readLexeme_isToken hname) (fun _ => separated_cons rfl _) hfromGap)
  exact respaced_reads_alike (by decide +kernel) hspace

end Edict
