import Edict.Proofs.Building
import Edict.Proofs.Joining

namespace Edict

/-! # Building an instruction again from its source

An instruction that was built from parts has a source like any other: the parts with punctuation
between them.  What is built from that text is read from other tokens, at other places, than the
parts were.  It is the same instruction, as the text is cut into the words of the parts and reading
their arguments ends in front of the arrow as it ended at their end.

Where each argument has a text of its own, the texts stand between commas.  Each of them may have a
comma behind its expression, and in front of the comma of the next one that is one too many.

Main statements:

* `build_source_of_buildParts`: the source of an instruction built from parts builds it again;
* `build_source_of_buildFromParameters_iff`: the source of an instruction built from one text for
  each argument does so just if none of the texts but the last ends in a comma.
-/

open Lexer Edict.Parser

/-! ## The words of the source -/

/-- The text is a single identifier, with nothing around it. -/
def IsIdentifier (name : String) : Prop :=
  ∃ span, tokenize name = .ok [⟨.identifier, some name, span⟩]

/-- A name is a text of one word. -/
theorem IsIdentifier.cut {name : String} (h : IsIdentifier name) :
    Cut readLexeme name.toList [.name name] := by
  rcases h with ⟨span, htokens⟩
  exact cut_toList_iff.mpr ⟨_, htokens, rfl⟩

/-- The arrow with the names behind it, or nothing. -/
def modifierWords (names : List String) : List Token :=
  if names = [] then [] else .mark .arrow :: Node.commaWords (names.map fun name => [.name name])

/-- The words of an instruction whose arguments are `parameters`. -/
def instructionWords (function : String) (parameters : List Token) (names : List String) :
    List Token :=
  .name function :: .mark .colon :: (parameters ++ modifierWords names)

section

variable {function parameters : String} {names : List String} {words : List Token}
  {nodes : List Node}

/-- The source of an instruction is cut into the words of its parts. -/
theorem cut_sourceOfParts (hfunction : IsIdentifier function)
    (hnames : ∀ name ∈ names, IsIdentifier name)
    (hparameters : Cut readLexeme parameters.toList words) :
    Cut readLexeme (Interpreter.sourceOfParts function parameters names).toList
      (instructionWords function words names) := by
  -- Behind the arguments stands nothing, or a blank that ends their last word.
  have hrest : Cut readLexeme
      (parameters.toList ++ (if names = [] then "" else " -> " ++ ", ".intercalate names).toList)
      (words ++ modifierWords names) := by
    by_cases hnone : names = []
    · simpa [hnone, modifierWords] using hparameters
    · have hall : List.Forall₂ (fun text words => Cut readLexeme text.toList words) names
          (names.map fun name => [Token.name name]) := by
        rw [List.forall₂_map_right_iff, List.forall₂_same]
        exact fun name hname => (hnames name hname).cut
      have harrow := Cut.separator (c := ' ') rfl (cut_arrow (cut_intercalate hall))
      have happend := hparameters.append breaks_space harrow
      simpa [hnone, modifierWords] using happend
  have hfront := hfunction.cut.append breaks_colon (cut_colon hrest)
  simpa [Interpreter.sourceOfParts, instructionWords] using hfront

/-! ## Reading them -/

/-- Names with commas between them are read as the list of them. -/
theorem parseModifiers_commaWords (hnames : names ≠ []) (stop : Span) :
    parseModifiers stop (Node.commaWords (names.map fun name => [.name name]))
      = .ok (names, []) := by
  induction names with
  | nil => exact absurd rfl hnames
  | cons name names ih =>
    cases names with
    | nil => rfl
    | cons next names =>
      have hrest := ih (List.cons_ne_nil next names)
      have hname : (Token.name name).kind = .identifier := rfl
      have hcomma : (Token.mark .comma).kind = .comma := rfl
      show parseModifiers stop (.name name :: .mark .comma ::
        Node.commaWords ((next :: names).map fun name => [.name name])) = _
      rw [parseModifiers, if_pos hname]
      simp only [if_pos hcomma, hrest]
      rfl

/-- The words of an instruction are read as its parts. -/
theorem parseInstruction_instructionWords (h : parseParameters words = .ok (nodes, [])) :
    parseInstruction (instructionWords function words names)
      = .ok ⟨function, .origin, nodes, names⟩ := by
  -- The arrow closes the list of arguments, and so does the end.
  have hclose : ∀ t ∈ (modifierWords names).head?, t.kind.closesList = true := by
    unfold modifierWords
    split
    · simp
    · simp [Token.mark, TokenKind.closesList]
  have hparameters := parseParameters_append_close hclose h
  have hname : (Token.name function).kind = .identifier := rfl
  have hmark : ∀ kind, (Token.mark kind).kind = kind := fun _ => rfl
  simp only [instructionWords, parseInstruction, hname, hmark, if_true, hparameters]
  by_cases hnone : names = []
  · simp only [modifierWords, hnone]
    rfl
  · have hmodifiers := parseModifiers_commaWords hnone
    simp only [modifierWords, if_neg hnone, bind, Except.bind, hmark, if_true, hmodifiers]
    rfl

/-- Where the arguments cannot be read, nor can the instruction. -/
theorem parseInstruction_instructionWords_error {e : ParseError}
    (h : parseParameters words = .error e) :
    parseInstruction (instructionWords function words []) = .error e := by
  have hname : (Token.name function).kind = .identifier := rfl
  have hcolon : (Token.mark .colon).kind = .colon := rfl
  have hparameters : parseParameters (words ++ modifierWords []) = .error e := by
    rw [modifierWords, if_pos rfl, List.append_nil, h]
  simp only [instructionWords, parseInstruction, hname, hcolon, if_true, hparameters]
  rfl

/-- The tokens of a text are read as its words are, but for the places. -/
theorem exists_tokens_of_cut {text : String} (h : Cut readLexeme text.toList words) :
    ∃ tokens, tokenize text = .ok tokens ∧
      bareOutcome ParsedInstruction.bare (parseInstruction tokens) = parseInstruction words := by
  rcases cut_toList_iff.mp h with ⟨tokens, htokens, rfl⟩
  exact ⟨tokens, htokens, (parseInstruction_bare tokens).symm⟩

/-! ## Texts of single expressions -/

/-- The words that are read from a text. -/
def textWords (text : String) : List Token := (keptTokens text).map Token.bare

/-- A text that can be cut into tokens has just these. -/
theorem keptTokens_eq {text : String} {tokens : List Token} (h : tokenize text = .ok tokens) :
    keptTokens text = tokens := by
  unfold tokenize at h
  unfold keptTokens
  split at h
  · next hscan =>
    cases h
    rw [hscan]
  · cases h

theorem endsInComma_textWords (text : String) :
    endsInComma (textWords text) = endsInComma (keptTokens text) := by
  rw [endsInComma, textWords, List.getLast?_map, endsInComma]
  cases (keptTokens text).getLast? with
  | none => rfl
  | some t => rfl

/-- No object is read from any of the texts. -/
theorem objectFree_of_singleExpressions {texts : List String}
    (h : Interpreter.singleExpressions texts = .ok nodes) : ∀ n ∈ nodes, n.ObjectFree := by
  induction texts generalizing nodes with
  | nil =>
    cases h
    simp
  | cons text texts ih =>
    rcases bind_eq_ok_iff.mp h with ⟨tokens, htokens, h⟩
    rcases bind_eq_ok_iff.mp h with ⟨node, hnode, h⟩
    rcases bind_eq_ok_iff.mp h with ⟨others, hothers, h⟩
    cases h
    refine List.forall_mem_cons.mpr ⟨Parsed.objectFree ?_, ih hothers⟩
    exact parsed_of_parseSingleExpression (mapError_eq_ok_iff.mp htokens)
      (mapError_eq_ok_iff.mp hnode)

/-- Each of the texts is cut into its words, and these are one expression. -/
theorem forall₂_of_singleExpressions {texts : List String}
    (h : Interpreter.singleExpressions texts = .ok nodes) :
    List.Forall₂ (fun text words => Cut readLexeme text.toList words) texts
        (texts.map textWords) ∧
      List.Forall₂ (fun words node => parseParameters words = .ok ([node], []))
        (texts.map textWords) nodes := by
  induction texts generalizing nodes with
  | nil =>
    cases h
    exact ⟨.nil, .nil⟩
  | cons text texts ih =>
    rcases bind_eq_ok_iff.mp h with ⟨tokens, htokens, h⟩
    rcases bind_eq_ok_iff.mp h with ⟨node, hnode, h⟩
    rcases bind_eq_ok_iff.mp h with ⟨others, hothers, h⟩
    cases h
    have hkept := mapError_eq_ok_iff.mp htokens
    have hwords : textWords text = tokens.map Token.bare := by
      rw [textWords, keptTokens_eq hkept]
    have hsingle : parseParameters (textWords text) = .ok ([node], []) := by
      rw [hwords]
      exact parseParameters_congr (by simp [Token.bare])
        (parseSingleExpression_eq_ok_iff.mp (mapError_eq_ok_iff.mp hnode))
    rcases ih hothers with ⟨hcuts, hsingles⟩
    exact ⟨.cons (cut_toList_iff.mpr ⟨tokens, hkept, hwords.symm⟩) hcuts, .cons hsingle hsingles⟩

end

/-! ## Building from parts -/

namespace Interpreter

variable {σ τ : Type} {i : Interpreter σ τ} {f : Function σ τ} {ms : List (Modifier σ τ)}
  {function parameters : String} {names : List String} {words : List Token} {nodes : List Node}

/-- Functions and modifiers that are found are registered. -/
theorem contains_of_function (h : i.function function = .ok f) :
    i.functions.contains function = true := by
  unfold Interpreter.function at h
  split at h
  · next hfind => simp [Table.contains, hfind]
  · cases h

theorem contains_of_modifiersOf (h : i.modifiersOf names = .ok ms) :
    ∀ name ∈ names, i.modifiers.contains name = true := by
  induction names generalizing ms with
  | nil => simp
  | cons name names ih =>
    unfold modifiersOf at h
    split at h
    · cases h
    · next m hfind =>
      rcases bind_eq_ok_iff.mp h with ⟨others, hothers, -⟩
      refine List.forall_mem_cons.mpr ⟨?_, ih hothers⟩
      simp [Table.contains, hfind]

/-- The source of parts builds what the parts do, if the arguments are read from their words. -/
theorem build_sourceOfParts (hfunction : IsIdentifier function)
    (hnames : ∀ name ∈ names, IsIdentifier name) (hf : i.function function = .ok f)
    (hms : i.modifiersOf names = .ok ms) (hcut : Cut readLexeme parameters.toList words)
    (hnodes : parseParameters words = .ok (nodes, [])) :
    i.build (sourceOfParts function parameters names)
      = i.finish (sourceOfParts function parameters names) f nodes ms := by
  rcases exists_tokens_of_cut (cut_sourceOfParts hfunction hnames hcut) with
    ⟨tokens, htokens, hparse⟩
  rw [parseInstruction_instructionWords hnodes] at hparse
  rcases bareOutcome_eq_ok_iff.mp hparse with ⟨p, hread, hbare⟩
  have hname : p.function = function := congrArg ParsedInstruction.function hbare
  have hparameters : p.parameters = nodes := congrArg ParsedInstruction.parameters hbare
  have hmodifiers : p.modifiers = names := congrArg ParsedInstruction.modifiers hbare
  unfold build
  rw [Interpreter.tokens, htokens, ← hparameters]
  simp only [Except.mapError, bind, Except.bind, hread, hname, hmodifiers, hf, hms]
  rfl

/-- Where an argument is missing between the words, it is missing in the source. -/
theorem build_sourceOfParts_error (hfunction : IsIdentifier function)
    (hcut : Cut readLexeme parameters.toList words)
    (hmissing : parseParameters words = .error (.emptyExpression .origin)) :
    ∃ span, i.build (sourceOfParts function parameters [])
      = CallM.ofOutcome (.error (.parse (.emptyExpression span))) := by
  rcases exists_tokens_of_cut (cut_sourceOfParts hfunction (List.forall_mem_nil _) hcut) with
    ⟨tokens, htokens, hparse⟩
  rw [parseInstruction_instructionWords_error hmissing] at hparse
  cases hread : parseInstruction tokens with
  | ok p =>
    rw [hread] at hparse
    cases hparse
  | error e =>
    rw [hread] at hparse
    have hplace : ∃ span, e = .emptyExpression span := by
      cases e <;> cases hparse
      exact ⟨_, rfl⟩
    rcases hplace with ⟨span, rfl⟩
    refine ⟨span, ?_⟩
    unfold build
    rw [Interpreter.tokens, htokens]
    simp only [Except.mapError, bind, Except.bind, hread]
    rfl

/-- A step behind an outcome that needs nothing goes on with it where it stands. -/
theorem exists_of_run_ofOutcome {α β : Type} {outcome : Except Error α} {next : α → CallM σ τ β}
    {r r' : Runtime σ τ} {b : β} (h : (CallM.ofOutcome outcome >>= next).run r = (.ok b, r')) :
    ∃ a, outcome = .ok a ∧ (next a).run r = (.ok b, r') := by
  rcases run_bind_ok h with ⟨a, r'', hfirst, hnext⟩
  cases hfirst
  exact ⟨a, rfl, hnext⟩

end Interpreter

open Interpreter

section

variable {σ τ : Type} {i : Interpreter σ τ} {instruction : Instruction σ τ} {r r' r₁ : Runtime σ τ}
  {function : String}

/-- The source of an instruction that was built from parts builds the same instruction again: with
the same function, the same arguments and the same modifiers, against any context with room for a
value, which stays as it was. -/
theorem build_source_of_buildParts
    (hfunctions : ∀ name, i.functions.contains name = true → IsIdentifier name)
    (hmodifiers : ∀ name, i.modifiers.contains name = true → IsIdentifier name)
    (hroom : r.context.stack.HasRoom) (hroom' : r'.context.stack.HasRoom)
    {parameters modifiers : String}
    (h : (i.buildParts function parameters modifiers).run r = (.ok instruction, r₁)) :
    r₁ = r ∧ (i.build instruction.source).run r' = (.ok instruction, r') := by
  rcases exists_of_run_ofOutcome h with ⟨⟨f, nodes, ms⟩, hparts, hfinish⟩
  rcases bind_eq_ok_iff.mp hparts with ⟨f', hf, hparts⟩
  rcases bind_eq_ok_iff.mp hparts with ⟨tokens, htokens, hparts⟩
  rcases bind_eq_ok_iff.mp hparts with ⟨nodes', hnodes, hparts⟩
  rcases bind_eq_ok_iff.mp hparts with ⟨ms', hms, hparts⟩
  cases hparts
  -- The names that were found are identifiers, so that they are words of the source.
  have hfunction := hfunctions function (contains_of_function hf)
  have hnames : ∀ name ∈ Text.commaNames modifiers, IsIdentifier name := fun name hname =>
    hmodifiers name (contains_of_modifiersOf hms name hname)
  have hcut := cut_toList_iff.mpr ⟨tokens, mapError_eq_ok_iff.mp htokens, rfl⟩
  have hwords : parseParameters (tokens.map Token.bare) = .ok (nodes, []) :=
    parseParameters_congr (by simp [Token.bare])
      (parseParameterList_eq_ok_iff.mp (mapError_eq_ok_iff.mp hnodes))
  have hbuild := build_sourceOfParts hfunction hnames hf hms hcut hwords
  -- Folding the same arguments, which hold no objects, comes to the same in any context with room.
  have hfree : ∀ n ∈ nodes, n.ObjectFree := fun n hn =>
    (parsed_of_parseParameterList (mapError_eq_ok_iff.mp htokens) (mapError_eq_ok_iff.mp hnodes) n
      hn).objectFree
  rcases (steady_finish i _ f hfree ms).run_eq hroom hfinish with ⟨hsame, hanywhere⟩
  rw [source_of_finish hfinish, hbuild]
  exact ⟨hsame, hanywhere r' hroom'⟩

end

/-- The names that every interpreter knows from the start are identifiers. -/
theorem isIdentifier_of_contains_ofConfig {σ τ : Type} (config : Config) :
    (∀ name, (ofConfig config : Interpreter σ τ).functions.contains name = true →
      IsIdentifier name) ∧
    ∀ name, (ofConfig config : Interpreter σ τ).modifiers.contains name = true →
      IsIdentifier name := by
  constructor
  · intro name hknown
    simp only [ofConfig, Table.contains, Table.find?_insert] at hknown
    split at hknown
    · next hname =>
      rw [hname]
      exact ⟨.ofRange 0 8, by decide +kernel⟩
    · split at hknown
      · next hname =>
        rw [hname]
        exact ⟨.ofRange 0 5, by decide +kernel⟩
      · cases hknown
  · intro name hknown
    simp only [ofConfig, Table.contains, Table.find?_insert] at hknown
    split at hknown
    · next hname =>
      rw [hname]
      exact ⟨.ofRange 0 3, by decide +kernel⟩
    · cases hknown

namespace JoinedTexts

/-- An interpreter of three names. -/
def interpreter : Interpreter Unit Notes := .ofConfig {}

/-- A context without names that has room for one value. -/
def start : Runtime Unit Notes :=
  ⟨⟨⟨⟨{}, [], .empty⟩, 0, .empty, ⟨.ofSize ⟨4, 1⟩, ⟨(), 0⟩⟩⟩, none⟩, .stdout ""⟩

/-- A string with an arrow and a comma in it, a list, and a comma behind it. -/
def parts : CallM Unit Notes (Instruction Unit Notes) :=
  interpreter.buildParts "Evaluate" "'-> a,', [1, 2 + 3]," " neg , "

/-- The arrow of the string is no arrow in the source either, and the last comma ends nothing. -/
theorem build_source_of_buildParts_arrow :
    ∃ instruction : Instruction Unit Notes,
      instruction.source = "Evaluate: '-> a,', [1, 2 + 3], -> neg" ∧
      instruction.parameters.map Node.text = ["\"-> a,\"", "[1, 5]"] ∧
      instruction.modifierNames = ["neg"] ∧ parts.run start = (.ok instruction, start) ∧
      (interpreter.build instruction.source).run start = (.ok instruction, start) := by
  have hshown : (parts.run start).1.toOption.map (fun instruction => (instruction.source,
      instruction.parameters.map Node.text, instruction.modifierNames))
      = some ("Evaluate: '-> a,', [1, 2 + 3], -> neg", ["\"-> a,\"", "[1, 5]"], ["neg"]) := by
    decide +kernel
  rcases hparts : parts.run start with ⟨e | instruction, r⟩
  · rw [hparts] at hshown
    cases hshown
  · rw [hparts] at hshown
    have hshown := Option.some.inj hshown
    simp only [Prod.mk.injEq] at hshown
    rcases hshown with ⟨hsource, hparameters, hnames⟩
    have hroom : start.context.stack.HasRoom := Stack.hasRoom_ofSize
    rcases isIdentifier_of_contains_ofConfig {} with ⟨hfunctions, hmodifiers⟩
    rcases build_source_of_buildParts hfunctions hmodifiers hroom hroom hparts with ⟨rfl, hbuilds⟩
    exact ⟨instruction, hsource, hparameters, hnames, rfl, hbuilds⟩

end JoinedTexts

section

variable {σ τ : Type} {i : Interpreter σ τ} {instruction : Instruction σ τ} {r r' r₁ : Runtime σ τ}
  {function : String}

/-- The source of an instruction that was built from one text for each argument builds the same
instruction again just if none of the texts but the last ends in a comma.  Otherwise there is no
expression between that comma and the one that the source has behind the text. -/
theorem build_source_of_buildFromParameters_iff
    (hfunctions : ∀ name, i.functions.contains name = true → IsIdentifier name)
    (hroom : r.context.stack.HasRoom) (hroom' : r'.context.stack.HasRoom) {texts : List String}
    (h : (i.buildFromParameters function texts).run r = (.ok instruction, r₁)) :
    r₁ = r ∧
      ((i.build instruction.source).run r' = (.ok instruction, r') ↔
        ∀ text ∈ texts.dropLast, endsInComma (keptTokens text) = false) ∧
      ((∃ text ∈ texts.dropLast, endsInComma (keptTokens text) = true) →
        ∃ span, (i.build instruction.source).run r'
          = (.error (.parse (.emptyExpression span)), r')) := by
  rcases exists_of_run_ofOutcome h with ⟨⟨f, nodes⟩, hparts, hfinish⟩
  rcases bind_eq_ok_iff.mp hparts with ⟨f', hf, hparts⟩
  rcases bind_eq_ok_iff.mp hparts with ⟨nodes', hnodes, hparts⟩
  cases hparts
  have hfunction := hfunctions function (contains_of_function hf)
  rcases forall₂_of_singleExpressions hnodes with ⟨hcuts, hsingles⟩
  have hcut := cut_intercalate hcuts
  rcases (steady_finish i _ f (objectFree_of_singleExpressions hnodes) []).run_eq hroom hfinish with
    ⟨hsame, hanywhere⟩
  rw [source_of_finish hfinish]
  -- With a comma at the end of a text, the source has two commas side by side.
  have hcomma : (∃ text ∈ texts.dropLast, endsInComma (keptTokens text) = true) →
      ∃ span, (i.build (sourceOfParts function (", ".intercalate texts) [])).run r'
        = (.error (.parse (.emptyExpression span)), r') := by
    rintro ⟨text, hmem, hlast⟩
    have hmissing : parseParameters (Node.commaWords (texts.map textWords))
        = .error (.emptyExpression .origin) := by
      refine parseParameters_commaWords_error hsingles ⟨textWords text, ?_, ?_⟩
      · rw [← List.map_dropLast]
        exact List.mem_map_of_mem hmem
      · rw [endsInComma_textWords, hlast]
    rcases build_sourceOfParts_error (i := i) hfunction hcut hmissing with ⟨span, hbuild⟩
    exact ⟨span, by rw [hbuild]; rfl⟩
  refine ⟨hsame, ⟨?_, ?_⟩, hcomma⟩
  · -- A source that builds has no empty argument.
    intro hbuilds text hmem
    rw [← Bool.not_eq_true]
    intro hlast
    rcases hcomma ⟨text, hmem, hlast⟩ with ⟨span, hfails⟩
    rw [hbuilds] at hfails
    cases hfails
  · intro hlast
    -- Without, the source has the words of the texts with one comma between any two of them.
    have hwords : parseParameters (Node.commaWords (texts.map textWords)) = .ok (nodes, []) := by
      refine parseParameters_commaWords hsingles ?_
      rw [← List.map_dropLast, List.forall_mem_map]
      intro text hmem
      rw [endsInComma_textWords, hlast text hmem]
    rw [build_sourceOfParts hfunction (List.forall_mem_nil _) hf rfl hcut hwords]
    exact hanywhere r' hroom'

end

namespace JoinedTexts

/-- Texts for the arguments of an instruction. -/
def parameters (texts : List String) : CallM Unit Notes (Instruction Unit Notes) :=
  interpreter.buildFromParameters "Evaluate" texts

/-- A comma inside a string and one behind the last text do no harm. -/
theorem build_source_of_buildFromParameters_iff_string :
    ∃ instruction : Instruction Unit Notes,
      instruction.source = "Evaluate: 'a,', 1 + 2," ∧
      instruction.parameters.map Node.text = ["\"a,\"", "3"] ∧
      (parameters ["'a,'", "1 + 2,"]).run start = (.ok instruction, start) ∧
      (interpreter.build instruction.source).run start = (.ok instruction, start) := by
  have hshown : ((parameters ["'a,'", "1 + 2,"]).run start).1.toOption.map (fun instruction =>
      (instruction.source, instruction.parameters.map Node.text))
      = some ("Evaluate: 'a,', 1 + 2,", ["\"a,\"", "3"]) := by
    decide +kernel
  rcases hparts : (parameters ["'a,'", "1 + 2,"]).run start with ⟨e | instruction, r⟩
  · rw [hparts] at hshown
    cases hshown
  · rw [hparts] at hshown
    have hshown := Option.some.inj hshown
    simp only [Prod.mk.injEq] at hshown
    rcases hshown with ⟨hsource, hparameters⟩
    have hroom : start.context.stack.HasRoom := Stack.hasRoom_ofSize
    have hends : ∀ text ∈ ["'a,'", "1 + 2,"].dropLast, endsInComma (keptTokens text) = false := by
      decide +kernel
    rcases build_source_of_buildFromParameters_iff (isIdentifier_of_contains_ofConfig {}).1 hroom
      hroom hparts with ⟨rfl, hbuilds, -⟩
    exact ⟨instruction, hsource, hparameters, rfl, hbuilds.mpr hends⟩

/-- A comma behind another text is taken for one expression on its own, and the source has an empty
argument in its place. -/
theorem source_with_empty_argument :
    (∀ name, interpreter.functions.contains name = true → IsIdentifier name) ∧
      start.context.stack.HasRoom ∧
      ((parameters ["1,", "2"]).run start).1.map Instruction.source = .ok "Evaluate: 1,, 2" ∧
      ((interpreter.build "Evaluate: 1,, 2").run start).1.map Instruction.source
        = .error (.parse (.emptyExpression (.ofRange 12 13))) := by
  refine ⟨(isIdentifier_of_contains_ofConfig {}).1, Stack.hasRoom_ofSize, ?_, ?_⟩
  · decide +kernel
  · decide +kernel

end JoinedTexts

end Edict
