import Edict.Proofs.Patterns

namespace Edict

/-! # Tokens as a partition of the text

What the tokens of a text are, without a word on how they are found: spans that follow each other,
each on the longest text that can be read where it starts, with nothing but separators around them.
There is at most one such list, and it is what `tokenize` returns.

The proof goes along the text.  A list of tokens can be told apart by the character at the front:
there is none (`partition_nil_iff`), it is a separator, and the tokens are those of what follows
(`partition_separator_iff`), or the first token starts with it (`partition_token_iff`).  Reading
goes the same three ways.

Main statement: `tokenize_eq_ok_iff`.
-/

namespace Lexer

/-! ## Bytes -/

theorem byteLength_append (cs ds : List Char) :
    byteLength (cs ++ ds) = byteLength cs + byteLength ds := by
  induction cs with
  | nil => simp [byteLength]
  | cons c cs ih => simp [byteLength, ih, Nat.add_assoc]

theorem byteLength_pos {cs : List Char} (h : cs ≠ []) : 0 < byteLength cs := by
  cases cs with
  | nil => exact absurd rfl h
  | cons c cs =>
    have hc := c.utf8Size_pos
    rw [byteLength]
    omega

theorem eq_nil_of_byteLength {cs : List Char} (h : byteLength cs = 0) : cs = [] := by
  by_contra hne
  have hpos := byteLength_pos hne
  omega

theorem byteLength_toList (text : String) : byteLength text.toList = text.utf8ByteSize := by
  have hofList : ∀ cs : List Char, (String.ofList cs).utf8ByteSize = byteLength cs := by
    intro cs
    induction cs with
    | nil => rfl
    | cons c cs ih =>
      have hcons : String.ofList (c :: cs) = String.singleton c ++ String.ofList cs := by
        rw [← String.toList_inj]
        simp
      rw [hcons, String.utf8ByteSize_append, ih]
      simp [byteLength]
  rw [← hofList, String.ofList_toList]

/-- Of two texts at the start of another, the one with fewer bytes is at the start of the one with
more. -/
theorem exists_append_of_byteLength_le {word rest before tail : List Char}
    (h : word ++ rest = before ++ tail) (hle : byteLength word ≤ byteLength before) :
    ∃ between, before = word ++ between ∧ rest = between ++ tail := by
  rcases List.append_eq_append_iff.mp h with ⟨between, hbefore, hrest⟩ | ⟨between, hword, htail⟩
  · exact ⟨between, hbefore, hrest⟩
  · rw [hword, byteLength_append] at hle
    have hbetween : byteLength between = 0 := by omega
    obtain rfl := eq_nil_of_byteLength hbetween
    exact ⟨[], by simpa using hword.symm, by simpa using htail.symm⟩

/-! ## Tokens on a text -/

/-- A token stands on a text that starts at byte `start`: the bytes of its span are those of the
longest text that can be read where it starts, which has its kind and text. -/
def Stands (start : Nat) (text : List Char) (token : Token) : Prop :=
  ∃ before word after, text = before ++ word ++ after ∧
    token.span = ⟨start + byteLength before, start + byteLength (before ++ word)⟩ ∧
    IsToken token.kind token.text? word after

/-- A token is all over a byte. -/
def Covers (token : Token) (byte : Nat) : Prop := token.span.start ≤ byte ∧ byte < token.span.stop

/-- The tokens of a text that starts at byte `start`. -/
structure Partition (start : Nat) (text : List Char) (tokens : List Token) : Prop where
  /-- Every token is the longest match where it starts. -/
  stands : ∀ token ∈ tokens, Stands start text token
  /-- No token is empty. -/
  nonempty : ∀ token ∈ tokens, token.span.start < token.span.stop
  /-- A token ends before all that follow it start. -/
  ordered : tokens.Pairwise fun a b => a.span.stop ≤ b.span.start
  /-- There are separators alone around the tokens. -/
  separated : ∀ before c after, text = before ++ c :: after →
    Text.isSeparator c = true ∨ ∃ token ∈ tokens, Covers token (start + byteLength before)

section

variable {start : Nat} {c : Char} {cs : List Char} {token : Token} {tokens : List Token}

theorem IsToken.exists_cons {kind : TokenKind} {text? : Option String} {word rest : List Char}
    (h : IsToken kind text? word rest) :
    ∃ c tail, word = c :: tail ∧ Text.isSeparator c = false := by
  rcases h with ⟨p, hmatch, -, -⟩
  rcases exists_cons_of_mem hmatch.mem with ⟨c, tail, rfl, hstarts⟩
  exact ⟨c, tail, rfl, not_isSeparator_of_starts hstarts⟩

theorem Stands.start_le {text : List Char} (h : Stands start text token) :
    start ≤ token.span.start := by
  rcases h with ⟨before, word, after, -, hspan, -⟩
  rw [hspan]
  exact Nat.le_add_right _ _

theorem Stands.nonempty {text : List Char} (h : Stands start text token) :
    token.span.start < token.span.stop := by
  rcases h with ⟨before, word, after, -, hspan, htoken⟩
  rcases htoken.exists_cons with ⟨c, tail, rfl, -⟩
  have hpos := byteLength_pos (List.cons_ne_nil c tail)
  rw [hspan, byteLength_append]
  dsimp only
  omega

/-- A token that stands on the rest of a text stands on the text. -/
theorem Stands.append {front rest : List Char} (h : Stands (start + byteLength front) rest token) :
    Stands start (front ++ rest) token := by
  rcases h with ⟨before, word, after, rfl, hspan, htoken⟩
  refine ⟨front ++ before, word, after, by simp, ?_, htoken⟩
  rw [hspan]
  simp only [byteLength_append, Nat.add_assoc]

/-- A token on a text that starts behind the front of it stands on the rest. -/
theorem Stands.of_append {front rest : List Char} (h : Stands start (front ++ rest) token)
    (hle : start + byteLength front ≤ token.span.start) :
    Stands (start + byteLength front) rest token := by
  rcases h with ⟨before, word, after, hsplit, hspan, htoken⟩
  rw [hspan] at hle
  dsimp only at hle
  rw [List.append_assoc] at hsplit
  rcases exists_append_of_byteLength_le hsplit (by omega) with ⟨between, rfl, rfl⟩
  refine ⟨between, word, after, by simp, ?_, htoken⟩
  rw [hspan]
  simp only [byteLength_append, Nat.add_assoc]

/-! ## The three ways a text goes on -/

theorem partition_nil_iff : Partition start [] tokens ↔ tokens = [] := by
  constructor
  · intro h
    refine List.eq_nil_iff_forall_not_mem.mpr fun token htoken => ?_
    rcases h.stands token htoken with ⟨before, word, after, hsplit, -, hword⟩
    rcases hword.exists_cons with ⟨c, tail, rfl, -⟩
    simp at hsplit
  · rintro rfl
    exact ⟨by simp, by simp, .nil, by simp⟩

/-- A separator at the front is left out. -/
theorem partition_separator_iff (hc : Text.isSeparator c = true) :
    Partition start (c :: cs) tokens ↔ Partition (start + c.utf8Size) cs tokens := by
  constructor
  · intro h
    refine ⟨?_, h.nonempty, h.ordered, ?_⟩
    · intro token htoken
      have hstands : Stands start ([c] ++ cs) token := h.stands token htoken
      suffices hle : start + byteLength [c] ≤ token.span.start from hstands.of_append hle
      rcases hstands with ⟨before, word, after, hsplit, hspan, hword⟩
      -- The token starts with another character, and so behind this one.
      cases before with
      | nil =>
        rcases hword.exists_cons with ⟨d, tail, rfl, hd⟩
        cases hsplit
        rw [hc] at hd
        cases hd
      | cons d before =>
        cases hsplit
        rw [hspan]
        simp only [byteLength]
        omega
    · intro before d after hsplit
      have hbehind := h.separated (c :: before) d after (by rw [hsplit, List.cons_append])
      rwa [byteLength, ← Nat.add_assoc] at hbehind
  · intro h
    refine ⟨?_, h.nonempty, h.ordered, ?_⟩
    · intro token htoken
      have hstands : Stands (start + byteLength [c]) cs token := h.stands token htoken
      exact hstands.append
    · intro before d after hsplit
      cases before with
      | nil =>
        cases hsplit
        exact .inl hc
      | cons e before =>
        cases hsplit
        rw [byteLength, ← Nat.add_assoc]
        exact h.separated before d after rfl

/-- If no separator is at the front, a token is. -/
theorem Partition.exists_first (hc : Text.isSeparator c = false)
    (h : Partition start (c :: cs) tokens) :
    ∃ first others, tokens = first :: others ∧ first.span.start = start := by
  have hfront := h.separated [] c cs rfl
  rw [hc] at hfront
  rcases hfront with hfront | ⟨token, htoken, hcovers⟩
  · cases hfront
  · have htokenStart : token.span.start = start := by
      have hle := (h.stands token htoken).start_le
      have hge : token.span.start ≤ start := hcovers.1
      omega
    cases tokens with
    | nil => cases htoken
    | cons first others =>
      refine ⟨first, others, rfl, ?_⟩
      rcases List.mem_cons.mp htoken with rfl | hothers
      · exact htokenStart
      · have hbefore := List.rel_of_pairwise_cons h.ordered hothers
        have hfirst := h.stands first List.mem_cons_self
        have hle := hfirst.start_le
        have hlt := hfirst.nonempty
        omega

/-- The tokens behind the first one are those of the rest. -/
theorem Partition.rest {first : Token} {others : List Token} {word rest : List Char}
    (h : Partition start (word ++ rest) (first :: others))
    (hstop : first.span.stop = start + byteLength word) :
    Partition (start + byteLength word) rest others := by
  refine ⟨?_, ?_, h.ordered.of_cons, ?_⟩
  · intro token htoken
    refine (h.stands token (List.mem_cons_of_mem _ htoken)).of_append ?_
    rw [← hstop]
    exact List.rel_of_pairwise_cons h.ordered htoken
  · intro token htoken
    exact h.nonempty token (List.mem_cons_of_mem _ htoken)
  · rintro before d after rfl
    have hbehind := h.separated (word ++ before) d after (by rw [List.append_assoc])
    rw [byteLength_append, ← Nat.add_assoc] at hbehind
    rcases hbehind with hd | ⟨token, htoken, hcovers⟩
    · exact .inl hd
    · rcases List.mem_cons.mp htoken with rfl | htoken
      · have hlt := hcovers.2
        omega
      · exact .inr ⟨token, htoken, hcovers⟩

/-- A token in front of a text that has its tokens. -/
theorem Partition.cons {first : Token} {others : List Token} {word rest : List Char}
    (hspan : first.span = ⟨start, start + byteLength word⟩)
    (hword : IsToken first.kind first.text? word rest)
    (hrest : Partition (start + byteLength word) rest others) :
    Partition start (word ++ rest) (first :: others) := by
  have hfirst : Stands start (word ++ rest) first := ⟨[], word, rest, rfl, hspan, hword⟩
  refine ⟨?_, ?_, ?_, ?_⟩
  · intro token htoken
    rcases List.mem_cons.mp htoken with rfl | htoken
    · exact hfirst
    · exact (hrest.stands token htoken).append
  · intro token htoken
    rcases List.mem_cons.mp htoken with rfl | htoken
    · exact hfirst.nonempty
    · exact hrest.nonempty token htoken
  · refine .cons ?_ hrest.ordered
    intro token htoken
    rw [hspan]
    exact (hrest.stands token htoken).start_le
  · intro before d after htext
    -- A character lies behind the word or in it.
    by_cases hle : byteLength word ≤ byteLength before
    · rcases exists_append_of_byteLength_le htext hle with ⟨between, rfl, hbehind⟩
      rw [byteLength_append, ← Nat.add_assoc]
      rcases hrest.separated between d after hbehind with hd | ⟨token, htoken, hcovers⟩
      · exact .inl hd
      · exact .inr ⟨token, List.mem_cons_of_mem _ htoken, hcovers⟩
    · refine .inr ⟨first, List.mem_cons_self, ?_⟩
      rw [Covers, hspan]
      dsimp only
      omega

/-- The first token is the longest match at the front, and the others are those of the rest. -/
theorem partition_token_iff (hc : Text.isSeparator c = false) :
    Partition start (c :: cs) tokens ↔ ∃ first others word rest, tokens = first :: others ∧
      word ++ rest = c :: cs ∧ first.span = ⟨start, start + byteLength word⟩ ∧
      IsToken first.kind first.text? word rest ∧
      Partition (start + byteLength word) rest others := by
  constructor
  · intro h
    rcases h.exists_first hc with ⟨first, others, rfl, hstart⟩
    rcases h.stands first List.mem_cons_self with ⟨before, word, rest, hsplit, hspan, hword⟩
    have hbefore : byteLength before = 0 := by
      rw [hspan] at hstart
      dsimp only at hstart
      omega
    obtain rfl := eq_nil_of_byteLength hbefore
    rw [List.nil_append] at hsplit hspan
    rw [hsplit] at h
    exact ⟨first, others, word, rest, rfl, hsplit.symm, hspan, hword, h.rest (by rw [hspan])⟩
  · rintro ⟨first, others, word, rest, rfl, hsplit, hspan, hword, hrest⟩
    rw [← hsplit]
    exact .cons hspan hword hrest

/-! ## Reading -/

theorem ofRange_of_lt {n m : Nat} (hle : n ≤ m) (hlt : m < 4294967296) :
    Span.ofRange n m = ⟨n, m⟩ := by
  unfold Span.ofRange Span.limit
  rw [Nat.min_eq_left (by omega), Nat.min_eq_left (by omega)]

/-- Reading finds the tokens of a text, if there are any. -/
theorem scan_eq_iff (h : start + byteLength cs < 4294967296) :
    scan start cs = (tokens, none) ↔ Partition start cs tokens := by
  -- Scanning takes off separators and longest matches, which is how a partition begins.
  fun_induction scan start cs generalizing tokens with
  | case1 start =>
    rw [partition_nil_iff]
    constructor
    · intro hscan
      cases hscan
      rfl
    · rintro rfl
      rfl
  | case2 start c cs hc ih =>
    rw [byteLength] at h
    rw [partition_separator_iff hc]
    exact ih (by omega)
  | case3 start c cs hc kind chars hread =>
    rw [partition_token_iff (Bool.eq_false_of_not_eq_true hc)]
    constructor
    · intro hscan
      cases hscan
    · rintro ⟨first, others, word, rest, -, hsplit, -, hword, -⟩
      have hread' : readLexeme c cs = .ok ⟨first.kind, first.text?, word, rest⟩ :=
        readLexeme_eq_ok_iff.mpr ⟨hsplit, hword⟩
      rw [hread] at hread'
      cases hread'
  | case4 start c cs hc lexeme hread stop others failure? hscan =>
    rename_i ih
    rcases readLexeme_eq_ok_iff.mp hread with ⟨hsplit, hword⟩
    -- The text that is left ends where the whole text does.
    have hbytes : stop + byteLength lexeme.rest = start + byteLength (c :: cs) := by
      rw [← hsplit, byteLength_append, ← Nat.add_assoc]
    have hspan : Span.ofRange start stop = ⟨start, stop⟩ := by
      have hle : start ≤ stop := Nat.le_add_right _ _
      exact ofRange_of_lt hle (by omega)
    have hrest : ∀ {tokens}, scan stop lexeme.rest = (tokens, none) ↔
        Partition stop lexeme.rest tokens := ih (by omega)
    rw [hscan] at hrest
    rw [partition_token_iff (Bool.eq_false_of_not_eq_true hc), hspan]
    constructor
    · intro h
      cases h
      exact ⟨_, others, lexeme.chars, lexeme.rest, rfl, hsplit, rfl, hword, hrest.mp rfl⟩
    · rintro ⟨⟨kind, text?, span⟩, others', word, rest, rfl, hsplit', rfl, hword', hrest'⟩
      have hread' : readLexeme c cs = .ok ⟨kind, text?, word, rest⟩ :=
        readLexeme_eq_ok_iff.mpr ⟨hsplit', hword'⟩
      rw [hread] at hread'
      cases hread'
      cases hrest.mpr hrest'
      rfl

end

end Lexer

/-! ## The whole text -/

section

open Lexer

/-- The tokens of a text are the only list of tokens that is a partition of it, and there are none
if there is no such list. -/
theorem tokenize_eq_ok_iff {text : String} {tokens : List Token}
    (h : text.utf8ByteSize < 4294967296) :
    tokenize text = .ok tokens ↔ Partition 0 text.toList tokens := by
  have hbytes : 0 + byteLength text.toList < 4294967296 := by
    rw [byteLength_toList]
    omega
  rw [← scan_eq_iff hbytes, tokenize]
  split
  · next kept hscan => simp [hscan]
  · next kept e hscan => simp [hscan]

/-- A float that ends with its point, a sign of two characters and a string with an escaped quote
and a character of three bytes. -/
theorem partition_float_and_string :
    Partition 0 "1.&& '\\'€'".toList [⟨.float, some "1.", ⟨0, 2⟩⟩, ⟨.and, none, ⟨2, 4⟩⟩,
      ⟨.str, some "'€", ⟨5, 12⟩⟩] :=
  (tokenize_eq_ok_iff (by decide)).mp (by decide +kernel)

end

end Edict
