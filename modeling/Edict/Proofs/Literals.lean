import Edict.Proofs.Failures

namespace Edict

/-! # String literals

Every string can be written as a literal: between quotes of either kind, with a backslash before
each such quote and before each backslash, and before as many of the other characters as one likes.
No other text is read as a string.

Main statements:

* `Lexer.contents_iff`: what is written so is what has the string for its contents;
* `literal_reads_back`: a literal is read as one token, and every string token stands on a literal
  of its text.
-/

namespace Lexer

/-! ## Writing a string -/

/-- How a character is written between `quote`s, where it may be `chosen` to be escaped. -/
def written (quote : Char) (chosen : Bool) (c : Char) : List Char :=
  if c = quote ∨ c = '\\' ∨ chosen = true then ['\\', c] else [c]

/-- How characters are written between `quote`s; those at some indices are chosen to be escaped. -/
def escape (quote : Char) (chosen : Nat → Bool) (contents : List Char) : List Char :=
  (contents.mapIdx fun i c => written quote (chosen i) c).flatten

/-- The literal of a string in `quote`s. -/
def literal (quote : Char) (chosen : Nat → Bool) (s : String) : String :=
  String.ofList (quote :: (escape quote chosen s.toList ++ [quote]))

section

variable {quote : Char}

/-- However a character is written, it is a piece of a string. -/
theorem written_mem_piece (chosen : Bool) (c : Char) : written quote chosen c ∈ piece quote := by
  unfold written
  split
  · exact mem_piece_iff.mpr (.inr ⟨c, rfl⟩)
  · next h =>
    rw [not_or, not_or] at h
    exact mem_piece_iff.mpr (.inl ⟨c, h.1, h.2.1, rfl⟩)

/-- The character is the last of those that it is written with. -/
theorem getLast?_written (chosen : Bool) (c : Char) :
    (written quote chosen c).getLast? = some c := by
  unfold written
  split
  · rfl
  · rfl

/-- Every piece of a string is some character, written in some way. -/
theorem exists_written {x : List Char} (h : x ∈ piece quote) :
    ∃ chosen c, x = written quote chosen c := by
  rcases mem_piece_iff.mp h with ⟨c, hquote, hescape, rfl⟩ | ⟨c, rfl⟩
  · exact ⟨false, c, by simp [written, hquote, hescape]⟩
  · exact ⟨true, c, by simp [written]⟩

theorem forall_mem_piece (chosen : Nat → Bool) (contents : List Char) :
    ∀ x ∈ contents.mapIdx fun i c => written quote (chosen i) c, x ∈ piece quote := by
  intro x hx
  rcases List.mem_mapIdx.mp hx with ⟨i, hi, rfl⟩
  exact written_mem_piece _ _

/-- What is written tells the characters. -/
theorem filterMap_written (chosen : Nat → Bool) (contents : List Char) :
    (contents.mapIdx fun i c => written quote (chosen i) c).filterMap List.getLast?
      = contents := by
  induction contents generalizing chosen with
  | nil => rfl
  | cons c contents ih =>
    rw [List.mapIdx_cons, List.filterMap_cons_some (getLast?_written _ c),
      ih fun i => chosen (i + 1)]

/-- Pieces are what characters are written as. -/
theorem exists_chosen {pieces : List (List Char)} (h : ∀ x ∈ pieces, x ∈ piece quote) :
    ∃ chosen : Nat → Bool, pieces = (pieces.filterMap List.getLast?).mapIdx fun i c =>
      written quote (chosen i) c := by
  induction pieces with
  | nil => exact ⟨fun _ => false, rfl⟩
  | cons x pieces ih =>
    rcases exists_written (h x List.mem_cons_self) with ⟨first, c, rfl⟩
    rcases ih fun y hy => h y (List.mem_cons_of_mem _ hy) with ⟨chosen, hchosen⟩
    -- What is chosen of the others moves up by one place.
    refine ⟨fun | 0 => first | i + 1 => chosen i, ?_⟩
    rw [List.filterMap_cons_some (getLast?_written _ c), List.mapIdx_cons, ← hchosen]

/-- A text in quotes has the contents that it can be written for. -/
theorem contents_iff {word contents : List Char} :
    Pattern.Contents quote word contents ↔
      ∃ chosen, word = quote :: (escape quote chosen contents ++ [quote]) := by
  constructor
  · rintro ⟨pieces, hpieces, rfl, rfl⟩
    rcases exists_chosen hpieces with ⟨chosen, hchosen⟩
    exact ⟨chosen, by rw [escape, ← hchosen]⟩
  · rintro ⟨chosen, rfl⟩
    exact ⟨_, forall_mem_piece chosen contents, rfl, (filterMap_written chosen contents).symm⟩

/-- Dropping the backslashes that escape undoes writing. -/
theorem unescape_escape (chosen : Nat → Bool) (contents : List Char) :
    unescape (escape quote chosen contents) = contents := by
  rw [escape, unescape_flatten (forall_mem_piece chosen contents), filterMap_written]

/-! ## Reading it back -/

/-- A quote separates nothing. -/
theorem not_isSeparator_of_isQuote (h : isQuote quote = true) : Text.isSeparator quote = false := by
  rcases isQuote_iff.mp h with rfl | rfl
  · rfl
  · rfl

/-- A string literal is read up to its second quote, in front of anything. -/
theorem readLexeme_literal (hquote : isQuote quote = true) (chosen : Nat → Bool)
    (contents rest : List Char) :
    readLexeme quote (escape quote chosen contents ++ quote :: rest) =
      .ok ⟨.str, some (String.ofList contents),
        quote :: (escape quote chosen contents ++ [quote]), rest⟩ := by
  have hbody : stringBody quote (escape quote chosen contents ++ quote :: rest)
      = .ok (escape quote chosen contents ++ [quote], rest) :=
    stringBody_of_pieces (ne_escape_of_isQuote hquote) (forall_mem_piece chosen contents) rest
  rw [readLexeme_of_isQuote hquote, readString, hbody]
  simp only [List.dropLast_concat, unescape_escape]

/-- A string token is spelled as a literal of its text. -/
theorem IsToken.exists_literal {text? : Option String} {word rest : List Char}
    (h : IsToken .str text? word rest) : ∃ quote chosen s, isQuote quote = true ∧
      text? = some s ∧ word = (literal quote chosen s).toList := by
  rcases h with ⟨p, hmatch, hkind, htext⟩
  have hcontents : ∃ quote contents, isQuote quote = true ∧
      Pattern.Contents quote word contents ∧ text? = some (String.ofList contents) := by
    cases p with
    | symbol kind =>
      cases hkind
      cases hmatch.mem
    | doubleQuoted => exact ⟨'"', htext.choose, rfl, htext.choose_spec⟩
    | singleQuoted => exact ⟨'\'', htext.choose, rfl, htext.choose_spec⟩
    | truth _ | int | float | malformed | identifier => cases hkind
  rcases hcontents with ⟨quote, contents, hquote, hword, rfl⟩
  rcases contents_iff.mp hword with ⟨chosen, rfl⟩
  exact ⟨quote, chosen, _, hquote, rfl, by simp [literal]⟩

end

/-! ## Slices -/

theorem dropBytes_cons (c : Char) (cs : List Char) (n : Nat) :
    Span.dropBytes (c.utf8Size + n) (c :: cs) = Span.dropBytes n cs := by
  obtain ⟨k, hk⟩ := Nat.exists_eq_add_one.mpr c.utf8Size_pos
  have hrest : k + n + 1 - (k + 1) = n := by omega
  rw [hk, Nat.add_right_comm, Span.dropBytes, hk, if_pos (by omega), hrest]

theorem takeBytes_cons (c : Char) (cs : List Char) (n : Nat) :
    Span.takeBytes (c.utf8Size + n) (c :: cs) = (Span.takeBytes n cs).map (c :: ·) := by
  obtain ⟨k, hk⟩ := Nat.exists_eq_add_one.mpr c.utf8Size_pos
  have hrest : k + n + 1 - (k + 1) = n := by omega
  rw [hk, Nat.add_right_comm, Span.takeBytes, hk, if_pos (by omega), hrest]

/-- The bytes of a text can be left out in front of another. -/
theorem dropBytes_append (before cs : List Char) :
    Span.dropBytes (byteLength before) (before ++ cs) = some cs := by
  induction before with
  | nil => simp [byteLength, Span.dropBytes]
  | cons c before ih => rw [byteLength, List.cons_append, dropBytes_cons, ih]

/-- The bytes of a text can be taken from in front of another. -/
theorem takeBytes_append (word cs : List Char) :
    Span.takeBytes (byteLength word) (word ++ cs) = some word := by
  induction word with
  | nil => simp [byteLength, Span.takeBytes]
  | cons c word ih => rw [byteLength, List.cons_append, takeBytes_cons, ih, Option.map_some]

/-- The span of the bytes of a word covers the word. -/
theorem slice_of_append {text : String} {before word after : List Char}
    (h : text.toList = before ++ word ++ after) :
    (Span.mk (byteLength before) (byteLength (before ++ word))).slice text
      = some (String.ofList word) := by
  have hle : byteLength before ≤ byteLength (before ++ word) := by
    rw [byteLength_append]
    exact Nat.le_add_right _ _
  have hword : byteLength (before ++ word) - byteLength before = byteLength word := by
    rw [byteLength_append, Nat.add_sub_cancel_left]
  rw [Span.slice, if_pos hle, hword, h, List.append_assoc, dropBytes_append, Option.bind_some,
    takeBytes_append, Option.map_some]

end Lexer

/-! ## The whole text -/

section

open Lexer

variable {text : String}

/-- The tokens that are kept are those of the text up to the place where reading ends. -/
theorem exists_partition_keptTokens (hsize : text.utf8ByteSize < 4294967296) :
    ∃ before rest, text.toList = before ++ rest ∧ Partition 0 before (keptTokens text) := by
  rw [← byteLength_toList] at hsize
  unfold keptTokens
  rcases hscan : scan 0 text.toList with ⟨tokens, failure?⟩
  cases failure? with
  | none => exact ⟨text.toList, [], by simp, (scan_eq_iff (by omega)).mp hscan⟩
  | some e =>
    -- Up to the error the text is read as it is alone, and so has tokens.
    rcases exists_of_scan_error hscan with ⟨before, c, rest, -, hsplit, hbefore, -⟩
    have hbytes := congrArg byteLength hsplit
    rw [byteLength_append] at hbytes
    exact ⟨before, c :: rest, hsplit, (scan_eq_iff (by omega)).mp hbefore⟩

/-- Every token that is kept is spelled as the text is where it stands. -/
theorem slice_of_mem_keptTokens (hsize : text.utf8ByteSize < 4294967296) {t : Token}
    (h : t ∈ keptTokens text) :
    ∃ word rest, t.span.slice text = some (String.ofList word) ∧
      IsToken t.kind t.text? word rest := by
  rcases exists_partition_keptTokens hsize with ⟨read, unread, hsplit, hpartition⟩
  rcases hpartition.stands t h with ⟨before, word, after, rfl, hspan, hword⟩
  rw [Nat.zero_add, Nat.zero_add] at hspan
  refine ⟨word, after, ?_, hword⟩
  rw [hspan]
  exact slice_of_append (by rw [hsplit, List.append_assoc _ after])

/-- A text that is one string literal is one token. -/
theorem tokenize_literal {quote : Char} (hquote : isQuote quote = true) (chosen : Nat → Bool)
    (s : String) (hsize : (literal quote chosen s).utf8ByteSize < 4294967296) :
    tokenize (literal quote chosen s) =
      .ok [⟨.str, some s, ⟨0, (literal quote chosen s).utf8ByteSize⟩⟩] := by
  have hread := readLexeme_literal hquote chosen s.toList []
  have htoken := scan_token (not_isSeparator_of_isQuote hquote) hread 0
  have hchars : (literal quote chosen s).toList
      = quote :: (escape quote chosen s.toList ++ [quote]) := String.toList_ofList
  rw [← byteLength_toList, hchars] at hsize
  rw [← byteLength_toList, tokenize, hchars, htoken, Nat.zero_add, scan, String.ofList_toList,
    ofRange_of_lt (Nat.zero_le _) hsize]

/-- A literal is read as one token all over it, which has the string for its text.  Every string
token of a text, also of one with an error further on, stands on a literal of its text, which is
what is left between the quotes without the backslashes that are not escaped themselves; and every
other literal of that text is read as the same string. -/
theorem literal_reads_back :
    (∀ s quote chosen, isQuote quote = true →
      (literal quote chosen s).utf8ByteSize < 4294967296 →
      tokenize (literal quote chosen s) =
        .ok [⟨.str, some s, ⟨0, (literal quote chosen s).utf8ByteSize⟩⟩]) ∧
    ∀ text t, text.utf8ByteSize < 4294967296 → t ∈ keptTokens text → t.kind = .str →
      ∃ quote body, isQuote quote = true ∧
        t.span.slice text = some (String.ofList (quote :: (body ++ [quote]))) ∧
        t.text? = some (String.ofList (dropEscapes body)) ∧
        (∃ chosen, t.span.slice text = some (literal quote chosen t.text)) ∧
        ∀ quote' chosen', isQuote quote' = true →
          (literal quote' chosen' t.text).utf8ByteSize < 4294967296 →
          tokenize (literal quote' chosen' t.text) =
            .ok [⟨.str, t.text?, ⟨0, (literal quote' chosen' t.text).utf8ByteSize⟩⟩] := by
  refine ⟨fun s quote chosen hquote hsize => tokenize_literal hquote chosen s hsize, ?_⟩
  intro text t hsize ht hkind
  rcases slice_of_mem_keptTokens hsize ht with ⟨word, rest, hslice, hword⟩
  rw [hkind] at hword
  -- The word of a string token is a literal in some quotes, with some of its characters escaped.
  rcases hword.exists_literal with ⟨quote, chosen, s, hquote, htext, rfl⟩
  have hs : t.text = s := by rw [Token.text, htext, Option.getD_some]
  rw [hs, hslice]
  refine ⟨quote, escape quote chosen s.toList, hquote, ?_, ?_, ⟨chosen, ?_⟩, ?_⟩
  · rw [literal, String.toList_ofList]
  · rw [htext, ← unescape_eq_dropEscapes, unescape_escape, String.ofList_toList]
  · rw [String.ofList_toList]
  · intro quote' chosen' hquote' hsize'
    rw [htext]
    exact tokenize_literal hquote' chosen' s hsize'

/-- A backslash, a quote and a line break that is chosen to be escaped, and a string in the other
quotes whose escaped character need not be. -/
theorem literal_reads_back_newline :
    tokenize "'\\\\\\'\\\n€'" = .ok [⟨.str, some "\\'\n€", ⟨0, 11⟩⟩] ∧
      ∃ quote chosen, Span.slice ⟨2, 6⟩ "f(\"\\a\"" = some (literal quote chosen "a") := by
  constructor
  · have hliteral : literal '\'' (· = 2) "\\'\n€" = "'\\\\\\'\\\n€'" := by decide +kernel
    have hsize : (literal '\'' (· = 2) "\\'\n€").utf8ByteSize < 4294967296 := by decide +kernel
    have hread := literal_reads_back.1 "\\'\n€" '\'' (· = 2) rfl hsize
    rw [hliteral] at hread
    exact hread
  · have hkept : ⟨.str, some "a", ⟨2, 6⟩⟩ ∈ keptTokens "f(\"\\a\"" := by decide +kernel
    rcases literal_reads_back.2 _ _ (by decide) hkept rfl with
      ⟨quote, -, -, -, -, ⟨chosen, hslice⟩, -⟩
    exact ⟨quote, chosen, hslice⟩

end

end Edict
