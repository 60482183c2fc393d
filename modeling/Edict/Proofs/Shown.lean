import Edict.Evaluation.Eval
import Edict.Proofs.FloatText
import Edict.Proofs.Parsed
import Edict.Proofs.Quotation
import Edict.Proofs.Subtrees

namespace Edict

open Lexer Edict.Parser Grammar

/-! # What a text shows of its expression

The text of an expression does not tell everything.  A point has no parentheses around it, so `a.b.c`
and `a.(b.c)` look alike; a float looks like a member of a number, and one that is too large like
the name `inf`.  `Node.shown` is an expression with all this put into one form: literals are the names
that they are spelled as, floats are members, and points are moved to the left.

Main statement: `text_eq_iff_shown_eq`.
-/

namespace Node

/-- The member `right` of `left`; if `right` is a member itself, its points are moved to the left. -/
def graft (left : Node) : Node → Node
  | apply .member [a, b] => apply .member [graft left a, b]
  | right => apply .member [left, right]

/-- The names that a number is spelled as: one behind the point of the other, or a single one. -/
def ofFloatText (text : String) : Node :=
  match text.toList.dropWhile (· ≠ '.') with
  | [] => ident text
  | _ :: fraction =>
    apply .member
      [ident (String.ofList (text.toList.takeWhile (· ≠ '.'))), ident (String.ofList fraction)]

/-- An operation on operands in which points have been moved to the left. -/
def regroup (op : Op) : List Node → Node
  | [a, b] => if op = .member then graft a b else apply op [a, b]
  | operands => apply op operands

mutual

/-- The expression as its text shows it. -/
def shown : Node → Node
  | int v => ident (toString v.toInt)
  | float v => ofFloatText (sourceLayout.text v)
  | bool v => ident (boolText v)
  | construct typeName fields => construct typeName (allShown fields)
  | list element items => list element (allShown items)
  | apply op operands => regroup op (allShown operands)
  | str v => str v
  | null => null
  | object v => object v
  | ident name => ident name

def allShown : List Node → List Node
  | [] => []
  | n :: ns => n.shown :: allShown ns

end

/-- Several trees are shown one by one. -/
theorem allShown_eq_map (ns : List Node) : allShown ns = ns.map shown := by
  induction ns with
  | nil => rfl
  | cons n ns ih => rw [allShown, ih, List.map_cons]

/-! ## The text is the same -/

/-- Regrouping members does not change the text. -/
theorem text_graft (left right : Node) :
    (graft left right).text = left.text ++ "." ++ right.text := by
  fun_induction graft left right with
  | case1 a b ih => simp [text, texts, applyText, ih, String.append_assoc]
  | case2 right h => simp [text, texts, applyText]

theorem text_ofFloatText (s : String) : (ofFloatText s).text = s := by
  unfold ofFloatText
  split
  · rfl
  · next point fraction hdrop =>
    have hpoint := List.head?_dropWhile_not (· ≠ '.') s.toList
    have hsplit := List.takeWhile_append_dropWhile (p := (· ≠ '.')) (l := s.toList)
    rw [hdrop] at hpoint hsplit
    obtain rfl : point = '.' := by simpa using hpoint
    rw [← String.toList_inj, toList_text_member]
    simpa [text] using hsplit

/-- What is shown of an operation has the text of the operation. -/
theorem text_regroup (op : Op) (operands : List Node) :
    (regroup op operands).text = (apply op operands).text := by
  unfold regroup
  split
  · split
    · next hop =>
      rw [text_graft, hop]
      simp [text, texts, applyText]
    · rfl
  · rfl

mutual

/-- An expression has the text of what it shows. -/
theorem text_shown : ∀ n : Node, n.shown.text = n.text
  | int v | bool v | str _ | null | object _ | ident _ => by simp only [shown, text]
  | float v => by rw [shown, text_ofFloatText, text]
  | construct typeName fields => by rw [shown, text, text, texts_allShown fields]
  | list element items => by rw [shown, text, text, texts_allShown items]
  | apply op operands => by rw [shown, text_regroup, text, text, texts_allShown operands]

theorem texts_allShown : ∀ ns : List Node, texts (allShown ns) = texts ns
  | [] => rfl
  | n :: ns => by rw [allShown, texts, texts, text_shown n, texts_allShown ns]

end

end Node

open Node

/-! ## Reading what is shown -/

/-- A name made of letters and digits in any order. -/
structure IsRun (name : String) : Prop where
  ne_nil : name.toList ≠ []
  parts : ∀ c ∈ name.toList, isWordPart c = true

instance (name : String) : Decidable (IsRun name) :=
  decidable_of_iff (name.toList ≠ [] ∧ name.toList.all isWordPart = true) <| by
    rw [List.all_eq_true]
    exact ⟨fun h => ⟨h.1, h.2⟩, fun h => ⟨h.ne_nil, h.parts⟩⟩

/-- The leaves of what is shown. -/
inductive IsSpelled : Node → Prop
  | null : IsSpelled .null
  | str (s : String) : IsSpelled (.str s)
  | ident {name : String} (h : IsRun name) (hnull : name ≠ "null") : IsSpelled (.ident name)

/-- Reads a run of letters and digits, a string as it is printed, or punctuation. -/
def readPrinted (c : Char) (cs : List Char) : Except (LexErrorKind × List Char) Lexeme :=
  if isWordPart c then
    let run := c :: cs.takeWhile isWordPart
    .ok ⟨.identifier, some (String.ofList run), run, cs.dropWhile isWordPart⟩
  else if c = '"' then
    match Text.unquote cs with
    | some (text, rest) =>
      .ok ⟨.str, some (String.ofList text), (c :: cs).take ((c :: cs).length - rest.length), rest⟩
    | none => .error (.unterminatedString c, c :: cs)
  else readSymbol c cs

/-- A run of word characters is read as one word, up to a character of another sort. -/
theorem readsWord_run {name : String} {rest : List Char} (h : IsRun name)
    (hrest : ∀ c ∈ rest.head?, isWordPart c = false) :
    ReadsWord readPrinted name.toList (.name name) rest := by
  rcases List.exists_cons_of_ne_nil h.ne_nil with ⟨c, cs, hname⟩
  have hparts := h.parts
  rw [hname] at hparts
  rcases List.forall_mem_cons.mp hparts with ⟨hc, hcs⟩
  rcases takeWhile_run hcs hrest with ⟨htake, hdrop⟩
  have hseparator : Text.isSeparator c = false := by
    rcases Bool.or_eq_true_iff.mp hc with hstart | hdigit
    · exact not_isSeparator_of_starts (p := .identifier) hstart
    · exact not_isSeparator_of_starts (p := .int) hdigit
  have hback : String.ofList (c :: cs) = name := by rw [← hname, String.ofList_toList]
  refine ⟨c, cs, hname, hseparator, rfl, ?_⟩
  rw [readPrinted, if_pos hc]
  simp only [htake, hdrop, hback, hname, Token.name]

theorem take_length_sub {α : Type} (xs rest : List α) :
    (xs ++ rest).take ((xs ++ rest).length - rest.length) = xs := by
  rw [List.length_append, Nat.add_sub_cancel, List.take_left]

/-- A quoted text is read as one word, and the word is the text. -/
theorem readsWord_printed (text : String) (rest : List Char) :
    ReadsWord readPrinted (Text.quoted text).toList ⟨.str, some text, .origin⟩ rest := by
  have hchars := take_length_sub (Text.quoted text).toList rest
  have hunquote := Text.unquote_escaped text.toList rest
  rw [toList_quoted, List.cons_append] at hchars
  rw [← List.singleton_append, ← List.append_assoc] at hunquote
  refine ⟨'"', _, toList_quoted text, rfl, rfl, ?_⟩
  rw [readPrinted, if_neg (by decide), if_pos rfl, hunquote]
  simp only [hchars, String.ofList_toList, toList_quoted]

/-- What is shown can be read, whatever characters its strings have. -/
theorem knows_readPrinted : Knows readPrinted IsSpelled IsRun := by
  constructor
  · intro c cs hdigit hstart hquote
    have hne : c ≠ '"' := by
      rintro rfl
      cases hquote
    simp [readPrinted, isWordPart, hdigit, hstart, hne]
  · intro n rest h hfollows
    cases h with
    | null =>
      have hnull : IsRun "null" := by decide
      exact ⟨_, rfl, by simp [Token.name], readsWord_run hnull fun c hc => (hfollows c hc).1⟩
    | str s => exact ⟨_, rfl, by simp, readsWord_printed s rest⟩
    | ident h hnull =>
      exact ⟨_, rfl, by simp [Token.name], readsWord_run h fun c hc => (hfollows c hc).1⟩
  · exact fun name rest h hrest => readsWord_run h hrest
  · intro element hvoid hobject
    cases element with
    | void => exact absurd rfl hvoid
    | object => exact absurd rfl hobject
    | int | float | bool | string => decide

/-- A leaf that is spelled as one word is an atom. -/
theorem atom_of_isSpelled {n : Node} (h : IsSpelled n) : Atom n.words n := by
  cases h with
  | null => exact .leaf rfl
  | str s => exact .leaf rfl
  | @ident name h hnull =>
    refine .leaf ?_
    show some (if name = "null" then Node.null else .ident name) = _
    rw [if_neg hnull]

/-! ## What is shown is written out -/

/-- Digits with a point between them are shown as one name behind the point of another. -/
theorem ofFloatText_of_spells {text : String} {x : ℚ} (h : Spells text x) :
    ∃ whole fraction, Pointed whole fraction ∧ ofFloatText text
      = .apply .member [.ident (String.ofList whole), .ident (String.ofList fraction)] := by
  rcases h with ⟨whole, fraction, htext, hpointed, -⟩
  refine ⟨whole, fraction, hpointed, ?_⟩
  rcases hpointed.takeWhile with ⟨htake, hdrop⟩
  rw [ofFloatText, htext, htake, hdrop]

section

variable {n left right : Node}

/-- What is shown ends in no integer, so that a point may follow. -/
theorem endsInInt_of_isSpelled (h : Written IsSpelled IsRun n) : n.endsInInt = false := by
  induction h with
  | leaf h => cases h <;> rfl
  | member _ _ _ _ _ ihb => rw [endsInInt, ihb]
  | binary _ hmember _ _ _ _ => simp [endsInInt, hmember]
  | list _ _ _ | construct _ _ _ | unary _ _ _ | ternary _ _ _ _ _ _ => simp [endsInInt]

/-- Points that are moved to the left stand behind what could stand there before. -/
theorem written_graft (hleft : Written IsSpelled IsRun left) (hright : Written IsSpelled IsRun right) :
    Written IsSpelled IsRun (graft left right) := by
  fun_induction graft left right with
  | case1 a b ih =>
    cases hright with
    | leaf h => cases h
    | binary _ hmember _ _ => exact absurd rfl hmember
    | member _ hb ha hb' =>
      exact .member (endsInInt_of_isSpelled (ih ha)) hb (ih ha) hb'
  | case2 right h =>
    refine .member (endsInInt_of_isSpelled hleft) ?_ hleft hright
    unfold isMember
    split
    · next a b => exact absurd rfl (h a b)
    · rfl

/-- A name is a run, and so are digits. -/
theorem isRun_of_mem_identifier {name : String} (h : name.toList ∈ Pattern.identifier.language) :
    IsRun name := by
  rcases mem_oneOf_mul.mp h with ⟨c, cs, hname, hc, hcs⟩
  rw [mem_kstar_oneOf] at hcs
  have hstart : isWordPart c = true := Bool.or_eq_true_iff.mpr (.inl hc)
  constructor
  · rw [hname]
    exact List.cons_ne_nil c cs
  · rw [hname]
    exact List.forall_mem_cons.mpr ⟨hstart, hcs⟩

theorem isRun_of_digits {name : String} (hne : name.toList ≠ [])
    (h : ∀ c ∈ name.toList, isDigit c = true) : IsRun name ∧ name ≠ "null" := by
  refine ⟨⟨hne, fun c hc => by simp [isWordPart, h c hc]⟩, ?_⟩
  rintro rfl
  exact absurd (h 'n' (by decide)) (by decide)

/-- Any run but `null` may stand as a name. -/
theorem written_ident {name : String} (h : IsRun name ∧ name ≠ "null") :
    Written IsSpelled IsRun (.ident name) :=
  .leaf (.ident h.1 h.2)

/-- A float without a sign is shown as a name, or as a name behind the point of another one. -/
theorem written_ofFloatText {v : Binary32} (h : v = .invalid ∨ v.isNegative = false) :
    Written IsSpelled IsRun (ofFloatText (sourceLayout.text v)) := by
  rcases text_cases h with ⟨x, hx⟩ | htext | htext
  · rcases ofFloatText_of_spells hx with ⟨whole, fraction, hpointed, htext⟩
    have hrun : ∀ {cs : List Char}, cs ≠ [] → (∀ c ∈ cs, isDigit c = true) →
        Written IsSpelled IsRun (.ident (String.ofList cs)) := by
      intro cs hne hcs
      refine written_ident (isRun_of_digits ?_ ?_)
      · rwa [String.toList_ofList]
      · rwa [String.toList_ofList]
    rw [htext]
    exact .member rfl rfl (hrun hpointed.whole_ne_nil hpointed.isDigit_whole)
      (hrun hpointed.fraction_ne_nil hpointed.isDigit_fraction)
  · rw [htext]
    exact written_ident (by decide)
  · rw [htext]
    exact written_ident (by decide)

theorem isUnary_cases {op : Op} (hop : op.isWritten = true) (h : op.arity = 1) :
    op = .neg ∨ op = .pos ∨ op = .not := by
  revert hop h
  cases op <;> decide

/-- What the text of a parsed expression shows is written out with names alone. -/
theorem written_shown (h : Parsed n) : Written IsSpelled IsRun n.shown := by
  induction h with
  | @int v h =>
    rcases toDigits_of_nonneg h with ⟨k, -, hdigits⟩
    rw [shown]
    refine written_ident (isRun_of_digits ?_ ?_)
    · rw [hdigits]
      exact Nat.toDigits_ne_nil
    · rw [hdigits]
      exact fun c hc => isDigit_of_mem_toDigits hc
  | float hdigit h =>
    rw [shown]
    exact written_ofFloatText (isNegative_of_floatLiteral? hdigit h)
  | bool b =>
    rw [shown]
    exact written_ident (by cases b <;> decide)
  | str s =>
    rw [shown]
    exact .leaf (.str s)
  | null =>
    rw [shown]
    exact .leaf .null
  | @ident name h =>
    rw [shown]
    refine written_ident ⟨isRun_of_mem_identifier h.identifier, ?_⟩
    rintro rfl
    exact h.notValue (by decide)
  | @list element items hkind _ ih =>
    rw [shown, allShown_eq_map]
    exact .list hkind (List.forall_mem_map.mpr ih)
  | @construct typeName fields htag _ ih =>
    rw [shown, allShown_eq_map]
    exact .construct (htag.imp_right isRun_of_mem_identifier) (List.forall_mem_map.mpr ih)
  | @apply op operands hop harity _ ih =>
    rw [shown, allShown_eq_map]
    rcases Op.operands_cases harity with ⟨a, rfl⟩ | ⟨a, b, rfl⟩ | ⟨rfl, a, b, c, rfl⟩
    · have ha := ih a (by simp)
      exact .unary (isUnary_cases hop harity.symm) ha
    · have ha := ih a (by simp)
      have hb := ih b (by simp)
      rw [List.map_cons, List.map_cons, List.map_nil, regroup]
      split
      · -- The parser makes points to the right too, and these are moved to the left.
        exact written_graft ha hb
      · next hmember => exact .binary harity.symm hmember ha hb
    · exact .ternary (ih a (by simp)) (ih b (by simp)) (ih c (by simp))

end

/-- Expressions that are read from texts have the same text just if the text shows the same. -/
theorem text_eq_iff_shown_eq {m n : Node} (hm : Parsed m) (hn : Parsed n) :
    m.text = n.text ↔ m.shown = n.shown := by
  constructor
  · intro h
    -- The text determines the words, and the words are read back as the tree that is shown.
    have hcut : ∀ {k : Node}, Parsed k → Cut readPrinted k.text.toList k.shown.words := by
      intro k hk
      have hcut := (written_shown hk).cut knows_readPrinted [] [] .nil follows_nil
      rwa [List.append_nil, List.append_nil, text_shown] at hcut
    have hparse : ∀ {k : Node}, Parsed k → parseSingleExpression k.shown.words = .ok k.shown := by
      intro k hk
      have hfit : IntegersFit k.shown.words := by
        refine (written_shown hk).forall_words ?_ ?_ ?_
        · rintro kind hvalue rfl
          cases hvalue
        · intro name hkind
          cases hkind
        · intro leaf hleaf t ht hkind
          cases hleaf <;> rw [List.mem_singleton.mp ht] at hkind <;> cases hkind
      exact parseSingleExpression_of_single
        (.bare ((written_shown hk).expr fun _ => atom_of_isSpelled)) hfit
    have hwords : m.shown.words = n.shown.words := (h ▸ hcut hm).unique (hcut hn)
    have hboth : Except.ok m.shown = Except.ok (ε := ParseError) n.shown := by
      rw [← hparse hm, hwords, hparse hn]
    exact Except.ok.inj hboth
  · intro h
    rw [← text_shown m, h, text_shown]

end Edict
