import Edict.Node
import Edict.Proofs.Cutting
import Edict.Proofs.Grammar
import Edict.Proofs.Patterns

namespace Edict

open Lexer Grammar

/-! # The words of a printed expression

A printed expression is a row of words: names and literals, punctuation, and the operators.  Two
things make the text stand for the tree.  The text is cut into these words, as no word runs into
the next one; and these words are an expression of the grammar, which the tree is the meaning of.

Both are said of trees whose leaves are all of some sort (`Written`), and of any way to read words
that knows this sort (`Knows`).

Main statements:

* `Written.cut`: the text of a tree is cut into the words of the tree;
* `Written.expr`: the words of a tree are an expression, whose tree is that one.
-/

/-! ## Words -/

/-- A punctuation mark or an operator. -/
def Token.mark (kind : TokenKind) : Token := ⟨kind, none, .origin⟩

def Token.name (text : String) : Token := ⟨.identifier, some text, .origin⟩

/-- The token that an operation is written with.  Those that have none get that of the ternary. -/
def Op.kind : Op → TokenKind
  | eq => .eq
  | ne => .ne
  | gt => .gt
  | lt => .lt
  | ge => .ge
  | le => .le
  | add | pos => .add
  | sub | neg => .sub
  | mul => .mul
  | div => .div
  | mod => .mod
  | pow => .pow
  | not => .not
  | and => .and
  | or => .or
  | member => .dot
  | assign => .assign
  | inc | dec | ternary => .question

namespace Node

/-- What stands before the bracket of a list. -/
def listTag (element : Kind) : String := if element = .object then "" else element.name

/-- The words of a tag, of which there are none if it is empty. -/
def tagWords (tag : String) : List Token := if tag = "" then [] else [.name tag]

/-- Items with commas between them. -/
def commaWords : List (List Token) → List Token
  | [] => []
  | [a] => a
  | a :: b :: items => a ++ .mark .comma :: commaWords (b :: items)

/-- An operation on operands whose words are known.  Operand counts that no operation has leave no
words. -/
def applyWords (op : Op) : List (List Token) → List Token
  | [a] => .mark .openParen :: .mark op.kind :: (a ++ [.mark .closeParen])
  | [a, b] =>
    if op = .member then a ++ .mark .dot :: b
    else .mark .openParen :: (a ++ .mark op.kind :: (b ++ [.mark .closeParen]))
  | [c, a, b] =>
    .mark .openParen ::
      (c ++ .mark .question :: (a ++ .mark .colon :: (b ++ [.mark .closeParen])))
  | _ => []

mutual

/-- The words that the expression is printed as.  An object has none. -/
def words : Node → List Token
  | int v => [⟨.int, some (toString v.toInt), .origin⟩]
  | float v => [⟨.float, some (sourceLayout.text v), .origin⟩]
  | bool v => [⟨.bool, some (boolText v), .origin⟩]
  | str v => [⟨.str, some v, .origin⟩]
  | null => [.name "null"]
  | object _ => []
  | construct typeName fields =>
    tagWords typeName ++ .mark .openBrace :: (commaWords (allWords fields) ++ [.mark .closeBrace])
  | list element items =>
    tagWords (listTag element) ++
      .mark .openBracket :: (commaWords (allWords items) ++ [.mark .closeBracket])
  | ident name => [.name name]
  | apply op operands => applyWords op (allWords operands)

def allWords : List Node → List (List Token)
  | [] => []
  | n :: ns => n.words :: allWords ns

end

/-- Whether the expression is a member of something. -/
def isMember : Node → Bool
  | apply .member [_, _] => true
  | _ => false

/-- Whether the text ends in the digits of an integer, so that a point behind it would make them a
float. -/
def endsInInt : Node → Bool
  | int _ => true
  | apply .member [_, right] => right.endsInInt
  | _ => false

end Node

/-! ## Trees that are written out -/

section

variable (leaf : Node → Prop) (tag : String → Prop)

/-- Trees that text can be written for: their leaves are of a sort, and so are the names in front of
brackets.  The left side of a point does not end in an integer, and its right side is not the member
of something again, as points group to the left. -/
inductive Written : Node → Prop
  | leaf {n : Node} (h : leaf n) : Written n
  | list {element : Kind} {items : List Node} (hkind : element ≠ .void)
      (hitems : ∀ item ∈ items, Written item) : Written (.list element items)
  | construct {typeName : String} {fields : List Node} (htag : typeName = "" ∨ tag typeName)
      (hfields : ∀ field ∈ fields, Written field) : Written (.construct typeName fields)
  | unary {op : Op} {a : Node} (hop : op = .neg ∨ op = .pos ∨ op = .not) (ha : Written a) :
      Written (.apply op [a])
  | binary {op : Op} {a b : Node} (hop : op.arity = 2) (hmember : op ≠ .member) (ha : Written a)
      (hb : Written b) : Written (.apply op [a, b])
  | ternary {c a b : Node} (hc : Written c) (ha : Written a) (hb : Written b) :
      Written (.apply .ternary [c, a, b])
  | member {a b : Node} (hleft : a.endsInInt = false) (hright : b.isMember = false)
      (ha : Written a) (hb : Written b) : Written (.apply .member [a, b])

end

/-! ## The text is cut into the words -/

/-- What may stand behind a tree: nothing that its last word would go on with. -/
def Follows (n : Node) (rest : List Char) : Prop :=
  ∀ c ∈ rest.head?, isWordPart c = false ∧ (c = '.' → n.endsInInt = false)

/-- What may follow an expression is anything that goes on no word of it, and the end. -/
theorem follows_cons {n : Node} {c : Char} {rest : List Char} (hc : isWordPart c = false)
    (hpoint : c ≠ '.') : Follows n (c :: rest) := by
  intro d hd
  obtain rfl : c = d := by simpa using hd
  exact ⟨hc, fun h => absurd h hpoint⟩

theorem follows_nil {n : Node} : Follows n [] := by
  intro c hc
  cases hc

/-- The reader knows the leaves, the tags and the punctuation. -/
structure Knows (read : Reader) (leaf : Node → Prop) (tag : String → Prop) : Prop where
  symbols : ∀ c cs, isDigit c = false → isWordStart c = false → isQuote c = false →
    read c cs = readSymbol c cs
  leaves : ∀ n rest, leaf n → Follows n rest →
    ∃ word, n.words = [word] ∧ word.text? ≠ none ∧ ReadsWord read n.text.toList word rest
  tags : ∀ name rest, tag name → (∀ c ∈ rest.head?, isWordPart c = false) →
    ReadsWord read name.toList (.name name) rest
  kinds : ∀ element : Kind, element ≠ .void → element ≠ .object → tag element.name

section

variable {read : Reader} {leaf : Node → Prop} {tag : String → Prop} {n : Node}
  {rest : List Char} {ws : List Token}

namespace Knows

/-- A mark of one character is read unless the next one makes it another. -/
theorem mark (hread : Knows read leaf tag) {kind : TokenKind} {c : Char}
    (hc : singleKind? c = some kind) (hnext : ∀ d ∈ rest.head?, pairKind? c d = none) :
    ReadsWord read [c] (.mark kind) rest := by
  rcases exists_cons_of_mem (singleKind?_eq_some_iff.mp hc) with ⟨c', cs, heq, hstarts⟩
  cases heq
  simp only [Pattern.starts, Bool.not_eq_true', Bool.or_eq_false_iff] at hstarts
  rcases hstarts with ⟨⟨⟨hdigit, hstart⟩, hquote⟩, hseparator⟩
  refine ⟨c, [], rfl, hseparator, rfl, ?_⟩
  rw [List.nil_append, hread.symbols c rest hdigit hstart hquote, readSymbol]
  have hpair : (rest.head?.bind fun d => (pairKind? c d).map (·, d)) = none := by
    cases rest with
    | nil => rfl
    | cons d ds => simp [hnext d rfl]
  rw [hpair, hc]
  rfl

/-- A mark that is part of no other one is read wherever it stands. -/
theorem cut_mark (hread : Knows read leaf tag) {kind : TokenKind} {c : Char}
    (hc : singleKind? c = some kind) (hnext : ∀ d, pairKind? c d = none) (hrest : Cut read rest ws) :
    Cut read (c :: rest) (.mark kind :: ws) :=
  (hread.mark hc fun d _ => hnext d).cut hrest

/-- An operator between operands stands between blanks. -/
theorem cut_operator (hread : Knows read leaf tag) {op : Op} (hop : op.arity = 2)
    (hrest : Cut read rest ws) :
    Cut read (op.symbol.toList ++ ' ' :: rest) (.mark op.kind :: ws) := by
  have hword : ReadsWord read op.symbol.toList (.mark op.kind) (' ' :: rest) := by
    cases op <;> first
      | exact ⟨_, _, rfl, rfl, rfl, (hread.symbols _ _ rfl rfl rfl).trans rfl⟩
      | cases hop
  exact hword.cut (.separator rfl hrest)

/-- A tag stands before its bracket. -/
theorem cut_tag (hread : Knows read leaf tag) {name : String} (h : name = "" ∨ tag name)
    (hnext : ∀ c ∈ rest.head?, isWordPart c = false) (hrest : Cut read rest ws) :
    Cut read (name.toList ++ rest) (Node.tagWords name ++ ws) := by
  by_cases hempty : name = ""
  · rw [hempty]
    exact hrest
  · rw [Node.tagWords, if_neg hempty]
    exact (hread.tags name rest (h.resolve_left hempty) hnext).cut hrest

/-- The kind of the elements is the tag of a list. -/
theorem tag_listTag (hread : Knows read leaf tag) {element : Kind} (hkind : element ≠ .void) :
    Node.listTag element = "" ∨ tag (Node.listTag element) := by
  by_cases hobject : element = .object
  · exact .inl (if_pos hobject)
  · rw [Node.listTag, if_neg hobject]
    exact .inr (hread.kinds element hkind hobject)

/-- A word with a text does not start with a character that would make another mark of the one
before it. -/
theorem ne_of_readsWord (hread : Knows read leaf tag) {c : Char} {cs : List Char} {word : Token}
    (h : ReadsWord read (c :: cs) word rest) (htext : word.text? ≠ none) : c ≠ '=' ∧ c ≠ '>' := by
  rcases h with ⟨c', cs', heq, -, -, hword⟩
  cases heq
  have hne : ∀ d, isDigit d = false → isWordStart d = false → isQuote d = false → c ≠ d := by
    rintro d hdigit hstart hquote rfl
    rw [hread.symbols c _ hdigit hstart hquote] at hword
    rcases readSymbol_eq_ok hword with ⟨_, _, _, _, _, hlexeme⟩ | ⟨_, _, _, hlexeme⟩
    · exact htext (congrArg Lexeme.text? hlexeme)
    · exact htext (congrArg Lexeme.text? hlexeme)
  exact ⟨hne '=' rfl rfl rfl, hne '>' rfl rfl rfl⟩

end Knows

namespace Node

/-! ### The characters of a printed expression -/

/-- The characters of each construct, as those of its parts with what stands between them. -/
theorem toList_text_list (element : Kind) (items : List Node) :
    (list element items).text.toList
      = (listTag element).toList ++ '[' :: ((commaList (texts items)).toList ++ [']']) := by
  simp [text, listTag]

theorem toList_text_construct (typeName : String) (fields : List Node) :
    (construct typeName fields).text.toList
      = typeName.toList ++ '{' :: ((commaList (texts fields)).toList ++ ['}']) := by
  simp [text]

theorem toList_text_unary (op : Op) (a : Node) :
    (apply op [a]).text.toList = '(' :: (op.symbol.toList ++ (a.text.toList ++ [')'])) := by
  simp [text, texts, applyText]

theorem toList_text_binary {op : Op} (hop : op ≠ .member) (a b : Node) :
    (apply op [a, b]).text.toList
      = '(' :: (a.text.toList ++ ' ' :: (op.symbol.toList ++ ' ' :: (b.text.toList ++ [')']))) := by
  simp [text, texts, applyText, hop]

theorem toList_text_ternary (op : Op) (c a b : Node) :
    (apply op [c, a, b]).text.toList
      = '(' :: (c.text.toList ++ ' ' :: '?' :: ' ' ::
          (a.text.toList ++ ' ' :: ':' :: ' ' :: (b.text.toList ++ [')']))) := by
  simp [text, texts, applyText]

theorem toList_text_member (a b : Node) :
    (apply .member [a, b]).text.toList = a.text.toList ++ '.' :: b.text.toList := by
  simp [text, texts, applyText]

theorem toList_commaList_cons (a b : Node) (items : List Node) :
    (commaList (texts (a :: b :: items))).toList
      = a.text.toList ++ ',' :: ' ' :: (commaList (texts (b :: items))).toList := by
  simp [texts, commaList]

end Node

open Node

/-- A printed expression does not start with a character that would make another mark of the one
before it. -/
theorem Written.exists_cons (hread : Knows read leaf tag) (h : Written leaf tag n) :
    ∃ c cs, n.text.toList = c :: cs ∧ c ≠ '=' ∧ c ≠ '>' := by
  -- What starts with a tag, starts as the tag does or else with the bracket behind it.
  have htagged : ∀ (name : String) (d : Char) (ds : List Char), d ≠ '=' → d ≠ '>' →
      isWordPart d = false → name = "" ∨ tag name →
      ∃ c cs, name.toList ++ d :: ds = c :: cs ∧ c ≠ '=' ∧ c ≠ '>' := by
    intro name d ds heq hgt hd hname
    rcases hname with rfl | hname
    · exact ⟨d, ds, rfl, heq, hgt⟩
    · have hword := hread.tags name (d :: ds) hname (by simpa using hd)
      rcases hword with ⟨c, cs, hcs, hrest⟩
      rw [hcs] at hrest
      have hstart : ReadsWord read (c :: cs) (.name name) (d :: ds) := ⟨c, cs, rfl, hrest⟩
      have hne := hread.ne_of_readsWord hstart (by simp [Token.name])
      exact ⟨c, cs ++ d :: ds, by rw [hcs, List.cons_append], hne⟩
  induction h with
  | @leaf n h =>
    rcases hread.leaves n [] h follows_nil with ⟨word, -, htext, hword⟩
    rcases hword with ⟨c, cs, hcs, hrest⟩
    rw [hcs] at hrest ⊢
    exact ⟨c, cs, rfl, hread.ne_of_readsWord ⟨c, cs, rfl, hrest⟩ htext⟩
  | @list element items hkind _ _ =>
    rw [toList_text_list]
    exact htagged _ '[' _ (by decide) (by decide) rfl (hread.tag_listTag hkind)
  | construct htag _ _ =>
    rw [toList_text_construct]
    exact htagged _ '{' _ (by decide) (by decide) rfl htag
  | unary _ _ _ =>
    rw [toList_text_unary]
    exact ⟨'(', _, rfl, by decide, by decide⟩
  | binary _ hmember _ _ _ _ =>
    rw [toList_text_binary hmember]
    exact ⟨'(', _, rfl, by decide, by decide⟩
  | ternary _ _ _ _ _ _ =>
    rw [toList_text_ternary]
    exact ⟨'(', _, rfl, by decide, by decide⟩
  | member _ _ _ _ hleft _ =>
    rcases hleft with ⟨c, cs, hcs, hne⟩
    rw [toList_text_member, hcs]
    exact ⟨c, cs ++ '.' :: _, rfl, hne⟩

/-- A tree is cut into its words in front of whatever may follow it. -/
def CutsBefore (read : Reader) (n : Node) : Prop :=
  ∀ (rest : List Char) (ws : List Token), Cut read rest ws → Follows n rest →
    Cut read (n.text.toList ++ rest) (n.words ++ ws)

/-- Trees with commas between them, in front of a bracket. -/
theorem cut_commaList (hread : Knows read leaf tag) {items : List Node}
    (hitems : ∀ item ∈ items, CutsBefore read item) {c : Char} (hc : isWordPart c = false)
    (hpoint : c ≠ '.') (hrest : Cut read (c :: rest) ws) :
    Cut read ((commaList (texts items)).toList ++ c :: rest)
      (commaWords (allWords items) ++ ws) := by
  induction items with
  | nil => exact hrest
  | cons a items ih =>
    have ha := hitems a List.mem_cons_self
    cases items with
    | nil => exact ha _ _ hrest (follows_cons hc hpoint)
    | cons b items =>
      have hothers := ih fun item hitem => hitems item (List.mem_cons_of_mem a hitem)
      have hblank := Cut.separator (c := ' ') rfl hothers
      have hcomma := hread.cut_mark (c := ',') rfl (fun _ => rfl) hblank
      rw [toList_commaList_cons]
      show Cut read _ ((a.words ++ .mark .comma :: commaWords (allWords (b :: items))) ++ ws)
      rw [List.append_assoc, List.append_assoc]
      exact ha _ _ hcomma (follows_cons rfl (by decide))

/-- The text of a tree is cut into the words of the tree. -/
theorem Written.cut (hread : Knows read leaf tag) (h : Written leaf tag n) :
    CutsBefore read n := by
  -- Each case goes through the text from its end to its start, as `Cut` is built.
  induction h with
  | @leaf n h =>
    intro rest ws hrest hfollows
    rcases hread.leaves n rest h hfollows with ⟨word, hwords, -, hword⟩
    rw [hwords]
    exact hword.cut hrest
  | @list element items hkind _ ih =>
    intro rest ws hrest _
    have hclose := hread.cut_mark (c := ']') rfl (fun _ => rfl) hrest
    have hitems := cut_commaList hread ih rfl (by decide) hclose
    have hopen := hread.cut_mark (c := '[') rfl (fun _ => rfl) hitems
    have hall := hread.cut_tag (hread.tag_listTag hkind)
      (by simp [isWordPart, isWordStart, isDigit]) hopen
    simpa [toList_text_list, words] using hall
  | @construct typeName fields htag _ ih =>
    intro rest ws hrest _
    have hclose := hread.cut_mark (c := '}') rfl (fun _ => rfl) hrest
    have hfields := cut_commaList hread ih rfl (by decide) hclose
    have hopen := hread.cut_mark (c := '{') rfl (fun _ => rfl) hfields
    have hall := hread.cut_tag htag (by simp [isWordPart, isWordStart, isDigit]) hopen
    simpa [toList_text_construct, words] using hall
  | @unary op a hop ha ih =>
    intro rest ws hrest _
    have hclose := hread.cut_mark (c := ')') rfl (fun _ => rfl) hrest
    have hoperand := ih _ _ hclose (follows_cons rfl (by decide))
    rcases ha.exists_cons hread with ⟨c, cs, hcs, heq, hgt⟩
    -- The sign must not make an arrow or `!=` with the first character of the operand.
    have hsign : Cut read (op.symbol.toList ++ (a.text.toList ++ ')' :: rest))
        (.mark op.kind :: (a.words ++ .mark .closeParen :: ws)) := by
      refine ReadsWord.cut ?_ hoperand
      rw [hcs]
      rcases hop with rfl | rfl | rfl
      · refine hread.mark (c := '-') rfl fun d hd => ?_
        obtain rfl : c = d := by simpa using hd
        simp [pairKind?, hgt]
      · exact hread.mark (c := '+') rfl fun d _ => rfl
      · refine hread.mark (c := '!') rfl fun d hd => ?_
        obtain rfl : c = d := by simpa using hd
        simp [pairKind?, heq]
    have hall := hread.cut_mark (c := '(') rfl (fun _ => rfl) hsign
    simpa [toList_text_unary, words, allWords, applyWords] using hall
  | @binary op a b hop hmember _ _ iha ihb =>
    intro rest ws hrest _
    have hclose := hread.cut_mark (c := ')') rfl (fun _ => rfl) hrest
    have hright := ihb _ _ hclose (follows_cons rfl (by decide))
    have hoperator := Cut.separator (c := ' ') rfl (hread.cut_operator hop hright)
    have hleft := iha _ _ hoperator (follows_cons rfl (by decide))
    have hall := hread.cut_mark (c := '(') rfl (fun _ => rfl) hleft
    simpa [toList_text_binary hmember, words, allWords, applyWords, hmember] using hall
  | @ternary c a b _ _ _ ihc iha ihb =>
    intro rest ws hrest _
    have hclose := hread.cut_mark (c := ')') rfl (fun _ => rfl) hrest
    have hno := Cut.separator (c := ' ') rfl (ihb _ _ hclose (follows_cons rfl (by decide)))
    have hcolon := Cut.separator (c := ' ') rfl (hread.cut_mark (c := ':') rfl (fun _ => rfl) hno)
    have hyes := Cut.separator (c := ' ') rfl (iha _ _ hcolon (follows_cons rfl (by decide)))
    have hquestion :=
      Cut.separator (c := ' ') rfl (hread.cut_mark (c := '?') rfl (fun _ => rfl) hyes)
    have hcondition := ihc _ _ hquestion (follows_cons rfl (by decide))
    have hall := hread.cut_mark (c := '(') rfl (fun _ => rfl) hcondition
    simpa [toList_text_ternary, words, allWords, applyWords] using hall
  | @member a b hleft _ _ _ iha ihb =>
    intro rest ws hrest hfollows
    have hright := ihb _ _ hrest hfollows
    have hpoint := hread.cut_mark (c := '.') rfl (fun _ => rfl) hright
    -- A number would take the point into its own word, so none stands on the left.
    have hall := iha _ _ hpoint (fun c hc => by
      obtain rfl : '.' = c := by simpa using hc
      exact ⟨rfl, fun _ => hleft⟩)
    simpa [toList_text_member, words, allWords, applyWords] using hall

/-! ## The words are an expression -/

/-- Trees with commas between them are a list of expressions. -/
theorem params_commaWords {items : List Node} (h : ∀ item ∈ items, Expr item.words item) :
    Params (commaWords (allWords items)) items := by
  induction items with
  | nil => exact .nil
  | cons a items ih =>
    have ha := h a List.mem_cons_self
    cases items with
    | nil => exact .last ha
    | cons b items =>
      exact .cons ha rfl (ih fun item hitem => h item (List.mem_cons_of_mem a hitem))

/-- A name in front of a bracket is a tag, and so is no name. -/
theorem tag_tagWords (name : String) : Tag (tagWords name) name := by
  by_cases hempty : name = ""
  · rw [hempty]
    exact .none
  · rw [tagWords, if_neg hempty]
    exact .ident (i := .name name) rfl

/-- The tag that is written for a kind of elements is read as that kind. -/
theorem ofTag_listTag {element : Kind} (h : element ≠ .void) :
    Kind.ofTag (listTag element) = element := by
  cases element with
  | void => exact absurd rfl h
  | int | float | bool | string | object => rfl

/-- The words stand for the tree wherever an operand of a point is due, and if they are no chain of
members, then on the right side of one as well. -/
structure Spelled (n : Node) : Prop where
  bin : ∀ level next, level ≤ 9 → Bin level next n.words n
  atom : n.isMember = false → Atom n.words n

/-- What is spelled by an atom is spelled at every level of the grammar. -/
theorem Spelled.of_atom (h : Atom n.words n) : Spelled n :=
  ⟨fun _ _ _ => .operand (.atom h), fun _ => h⟩

theorem Spelled.tern (h : Spelled n) : Tern n.words n := .bin (h.bin 1 0 (by decide))

theorem Spelled.expr (h : Spelled n) : Expr n.words n := .tern h.tern

/-- In parentheses anything is an atom. -/
theorem Spelled.of_parens {words : List Token} (h : Expr words n)
    (hwords : n.words = .mark .openParen :: (words ++ [.mark .closeParen])) : Spelled n := by
  refine .of_atom ?_
  rw [hwords]
  exact .paren rfl h rfl

/-- The operators between two operands have a level each, but for the assignment. -/
theorem exists_level {op : Op} (hop : op.arity = 2) (hmember : op ≠ .member)
    (hassign : op ≠ .assign) : ∃ l, op.kind.dyadic? = some (op, l) ∧ 1 ≤ l ∧ l + 1 ≤ 9 := by
  cases op <;> first
    | exact absurd rfl hmember
    | exact absurd rfl hassign
    | exact ⟨_, rfl, by decide, by decide⟩
    | cases hop

/-- The words of a tree are an expression, whose tree is that one. -/
theorem Written.spelled (hleaf : ∀ n, leaf n → Atom n.words n) (h : Written leaf tag n) :
    Spelled n := by
  induction h with
  | leaf h => exact .of_atom (hleaf _ h)
  | @list element items hkind _ ih =>
    have hparams := params_commaWords fun item hitem => (ih item hitem).expr
    have hatom := Atom.list (o := .mark .openBracket) (c := .mark .closeBracket)
      (tag_tagWords (listTag element)) rfl hparams rfl
    rw [ofTag_listTag hkind] at hatom
    refine .of_atom ?_
    simpa [words] using hatom
  | @construct typeName fields htag _ ih =>
    have hparams := params_commaWords fun field hfield => (ih field hfield).expr
    have hatom := Atom.object (o := .mark .openBrace) (c := .mark .closeBrace)
      (tag_tagWords typeName) rfl hparams rfl
    refine .of_atom ?_
    simpa [words] using hatom
  | @unary op a hop _ ih =>
    -- A sign takes an operand above its own level, as everything in parentheses is.
    have hmonadic : ∃ l, op.kind.monadic? = some (op, l) ∧ l + 1 ≤ 9 := by
      rcases hop with rfl | rfl | rfl
      all_goals exact ⟨_, rfl, by decide⟩
    rcases hmonadic with ⟨l, hl, hle⟩
    have hoperand : Operand 0 (.mark op.kind :: a.words) (.apply op [a]) :=
      .monadic hl (Nat.zero_le l) (ih.bin (l + 1) 0 hle)
    refine .of_parens (.tern (.bin (.operand hoperand))) ?_
    simp [words, allWords, applyWords]
  | @binary op a b hop hmember _ _ iha ihb =>
    have hwords : (Node.apply op [a, b]).words = .mark .openParen ::
        ((a.words ++ .mark op.kind :: b.words) ++ [.mark .closeParen]) := by
      simp [words, allWords, applyWords, hmember]
    by_cases hassign : op = .assign
    · -- Assignment binds weaker than a choice, so its right side may be one.
      subst hassign
      exact .of_parens (.assign iha.expr rfl ihb.tern) hwords
    · rcases exists_level hop hmember hassign with ⟨l, hl, hpos, hle⟩
      have hbin : Bin 1 0 (a.words ++ .mark op.kind :: b.words) (.apply op [a, b]) :=
        .dyadic (iha.bin l l (by omega)) hl hpos (ihb.bin (l + 1) 0 hle)
      exact .of_parens (.tern (.bin hbin)) hwords
  | @ternary c a b _ _ _ ihc iha ihb =>
    have hchoice := Tern.choice (q := .mark .question) (c := .mark .colon)
      (ihc.bin 1 0 (by decide)) rfl iha.expr rfl ihb.tern
    refine .of_parens (.tern hchoice) ?_
    simp [words, allWords, applyWords]
  | @member a b _ hright _ _ iha ihb =>
    have hwords : (Node.apply .member [a, b]).words = a.words ++ .mark .dot :: b.words := by
      simp [words, allWords, applyWords]
    constructor
    · intro level next hlevel
      rw [hwords]
      exact .dyadic (iha.bin 9 9 (Nat.le_refl 9)) rfl hlevel
        (.operand (.atom (ihb.atom hright)))
    · intro hmember
      cases hmember

/-- The words of a tree are an expression, whose tree is that one. -/
theorem Written.expr (hleaf : ∀ n, leaf n → Atom n.words n) (h : Written leaf tag n) :
    Expr n.words n :=
  (h.spelled hleaf).expr

/-! ## All words of a tree -/

/-- The words of a list are commas and words of its items. -/
theorem mem_commaWords {items : List Node} {t : Token} (h : t ∈ commaWords (allWords items)) :
    t = .mark .comma ∨ ∃ item ∈ items, t ∈ item.words := by
  induction items with
  | nil => cases h
  | cons a items ih =>
    cases items with
    | nil => exact .inr ⟨a, List.mem_cons_self, h⟩
    | cons b items =>
      rcases List.mem_append.mp h with ha | hrest
      · exact .inr ⟨a, List.mem_cons_self, ha⟩
      · rcases List.mem_cons.mp hrest with rfl | hrest
        · exact .inl rfl
        · rcases ih hrest with hcomma | ⟨item, hitem, ht⟩
          · exact .inl hcomma
          · exact .inr ⟨item, List.mem_cons_of_mem a hitem, ht⟩

theorem mem_tagWords {name : String} {t : Token} (h : t ∈ tagWords name) : t = .name name := by
  unfold tagWords at h
  split at h
  · cases h
  · exact List.mem_singleton.mp h

theorem isValue_kind (op : Op) : op.kind.isValue = false := by
  cases op <;> rfl

/-- What holds of marks, of names and of the words of the leaves holds of all words of a tree. -/
theorem Written.forall_words {P : Token → Prop}
    (hmark : ∀ kind : TokenKind, kind.isValue = false → P (.mark kind))
    (hname : ∀ name, P (.name name)) (hleaf : ∀ n, leaf n → ∀ t ∈ n.words, P t)
    (h : Written leaf tag n) : ∀ t ∈ n.words, P t := by
  have hitems : ∀ {items : List Node}, (∀ item ∈ items, ∀ t ∈ item.words, P t) →
      ∀ t ∈ commaWords (allWords items), P t := by
    intro items hitems t ht
    rcases mem_commaWords ht with rfl | ⟨item, hitem, ht⟩
    · exact hmark .comma rfl
    · exact hitems item hitem t ht
  have htag : ∀ name, ∀ t ∈ tagWords name, P t := by
    intro name t ht
    rw [mem_tagWords ht]
    exact hname name
  induction h with
  | leaf h => exact hleaf _ h
  | list _ _ ih =>
    simp only [words, List.forall_mem_append, List.forall_mem_cons]
    exact ⟨htag _, hmark _ rfl, hitems ih, hmark _ rfl, by simp⟩
  | construct _ _ ih =>
    simp only [words, List.forall_mem_append, List.forall_mem_cons]
    exact ⟨htag _, hmark _ rfl, hitems ih, hmark _ rfl, by simp⟩
  | unary _ _ ih =>
    simp only [words, allWords, applyWords, List.forall_mem_append, List.forall_mem_cons]
    exact ⟨hmark _ rfl, hmark _ (isValue_kind _), ih, hmark _ rfl, by simp⟩
  | binary _ hmember _ _ iha ihb =>
    simp only [words, allWords, applyWords, hmember, if_false, List.forall_mem_append,
      List.forall_mem_cons]
    exact ⟨hmark _ rfl, iha, hmark _ (isValue_kind _), ihb, hmark _ rfl, by simp⟩
  | ternary _ _ _ ihc iha ihb =>
    simp only [words, allWords, applyWords, List.forall_mem_append, List.forall_mem_cons]
    exact ⟨hmark _ rfl, ihc, hmark _ rfl, iha, hmark _ rfl, ihb, hmark _ rfl, by simp⟩
  | member _ _ _ _ iha ihb =>
    simp only [words, allWords, applyWords, if_true, List.forall_mem_append, List.forall_mem_cons]
    exact ⟨iha, hmark _ rfl, ihb⟩

end

end Edict
