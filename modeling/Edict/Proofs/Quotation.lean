import Edict.Text

namespace Edict.Text

/-! # Quoted text can be read back

Every character between quotes is written in a way of its own: what is written first tells which
character it is and where the next one starts.  So the closing quote is found, and no two texts are
the same between quotes, whatever characters they have.

Main statement: `unquote_escaped`.
-/

/-! ## Hexadecimal digits -/

/-- The value of a hexadecimal digit. -/
def hexDigit (c : Char) : Nat :=
  if c.toNat < 'a'.toNat then c.toNat - '0'.toNat else c.toNat - 'a'.toNat + 10

def hexNumber (cs : List Char) : Nat := cs.foldl (fun value c => 16 * value + hexDigit c) 0

/-- A hexadecimal digit is read back, and is no brace. -/
theorem hexDigit_digitChar {d : Nat} (h : d < 16) :
    hexDigit d.digitChar = d ∧ d.digitChar ≠ '}' := by
  revert d
  decide

/-- A number in hexadecimal digits is read back. -/
theorem hexNumber_toDigits (n : Nat) : hexNumber (Nat.toDigits 16 n) = n := by
  induction n using Nat.strongRecOn with
  | ind n ih =>
    rw [Nat.toDigits_eq_if (by decide)]
    split
    · next hlt => simp [hexNumber, hexDigit_digitChar hlt]
    · next hle =>
      have hlast := (hexDigit_digitChar (Nat.mod_lt n (by decide : 0 < 16))).1
      have hothers : hexNumber (Nat.toDigits 16 (n / 16)) = n / 16 := ih (n / 16) (by omega)
      rw [hexNumber] at hothers
      rw [hexNumber, List.foldl_append, List.foldl_cons, List.foldl_nil, hothers, hlast]
      omega

theorem ne_of_mem_toDigits {n : Nat} {c : Char} (h : c ∈ Nat.toDigits 16 n) : c ≠ '}' := by
  induction n using Nat.strongRecOn with
  | ind n ih =>
    rw [Nat.toDigits_eq_if (by decide)] at h
    split at h
    · next hlt =>
      rw [List.mem_singleton.mp h]
      exact (hexDigit_digitChar hlt).2
    · next hle =>
      rcases List.mem_append.mp h with hothers | hlast
      · exact ih (n / 16) (by omega) hothers
      · rw [List.mem_singleton.mp hlast]
        exact (hexDigit_digitChar (Nat.mod_lt n (by decide))).2

/-! ## One character -/

/-- The character that is written as a backslash and `c`. -/
def escaped (c : Char) : Char :=
  if c = '0' then '\x00' else if c = 't' then '\t' else if c = 'r' then '\r'
  else if c = 'n' then '\n' else c

/-- The character that is written first, and what stands behind it. -/
def unescapeChar? : List Char → Option (Char × List Char)
  | [] => none
  | '\\' :: 'u' :: cs =>
    let digits := (cs.takeWhile (· ≠ '}')).drop 1
    some (Char.ofNat (hexNumber digits), (cs.dropWhile (· ≠ '}')).drop 1)
  | '\\' :: c :: cs => some (escaped c, cs)
  | c :: cs => some (c, cs)

/-- A character without a backslash stands for itself. -/
theorem unescapeChar?_plain {c : Char} (h : c ≠ '\\') (cs : List Char) :
    unescapeChar? (c :: cs) = some (c, cs) := by
  rw [unescapeChar?.eq_4]
  · exact fun cs' heq _ => h heq
  · exact fun d cs' heq _ => h heq

theorem unescapeChar?_escaped {e : Char} (h : e ≠ 'u') (cs : List Char) :
    unescapeChar? ('\\' :: e :: cs) = some (escaped e, cs) := by
  rw [unescapeChar?.eq_3]
  exact h

/-- A code point in braces stands for its character. -/
theorem unescapeChar?_codePoint (c : Char) (rest : List Char) :
    unescapeChar? ((codePointEscape c).toList ++ rest) = some (c, rest) := by
  have hstart : (codePointEscape c).toList ++ rest
      = '\\' :: 'u' :: ('{' :: Nat.toDigits 16 c.toNat ++ '}' :: rest) := by
    simp [codePointEscape]
  have hrun : ∀ d ∈ '{' :: Nat.toDigits 16 c.toNat, decide (d ≠ '}') = true := by
    intro d hd
    rcases List.mem_cons.mp hd with rfl | hd
    · decide
    · exact decide_eq_true (ne_of_mem_toDigits hd)
  rw [hstart, unescapeChar?, List.takeWhile_append_of_pos hrun, List.dropWhile_append_of_pos hrun]
  simp [hexNumber_toDigits, Char.ofNat_toNat]

/-- The three ways to write a character: behind a backslash, as it is, and by its code point. -/
theorem escapeChar_cases (c : Char) :
    (∃ e, e ≠ 'u' ∧ escaped e = c ∧ (escapeChar '"' c).toList = ['\\', e]) ∨
      (c ≠ '\\' ∧ c ≠ '"' ∧ (escapeChar '"' c).toList = [c]) ∨
      escapeChar '"' c = codePointEscape c := by
  unfold escapeChar
  split
  · next h => exact .inl ⟨'0', by decide, h.symm, rfl⟩
  split
  · next h => exact .inl ⟨'t', by decide, h.symm, rfl⟩
  split
  · next h => exact .inl ⟨'r', by decide, h.symm, rfl⟩
  split
  · next h => exact .inl ⟨'n', by decide, h.symm, rfl⟩
  split
  · next h => exact .inl ⟨'\\', by decide, h.symm, rfl⟩
  split
  · next h => exact .inl ⟨'"', by decide, h.symm, by rw [h]; rfl⟩
  split
  · next hescape hquote _ => exact .inr (.inl ⟨hescape, hquote, String.toList_singleton c⟩)
  · exact .inr (.inr rfl)

/-- How a character is written tells which one it is, and where the next one starts. -/
theorem unescapeChar?_escapeChar (c : Char) (rest : List Char) :
    unescapeChar? ((escapeChar '"' c).toList ++ rest) = some (c, rest) := by
  rcases escapeChar_cases c with ⟨e, he, hc, htext⟩ | ⟨hescape, -, htext⟩ | htext
  · rw [htext, ← hc]
    exact unescapeChar?_escaped he rest
  · rw [htext]
    exact unescapeChar?_plain hescape rest
  · rw [htext]
    exact unescapeChar?_codePoint c rest

/-- No character is written so that it could be the closing quote. -/
theorem head?_escapeChar (c : Char) (rest : List Char) :
    ((escapeChar '"' c).toList ++ rest).head? ≠ some '"' := by
  rcases escapeChar_cases c with ⟨e, -, -, htext⟩ | ⟨-, hquote, htext⟩ | htext
  · simp [htext]
  · simpa [htext] using hquote
  · simp [htext, codePointEscape]

/-! ## The whole text -/

theorem unescapeChar?_length_lt {cs rest : List Char} {c : Char}
    (h : unescapeChar? cs = some (c, rest)) : rest.length < cs.length := by
  unfold unescapeChar? at h
  split at h
  · cases h
  · next cs =>
    cases h
    have hle := (List.dropWhile_suffix (p := fun c => decide (c ≠ '}')) (l := cs)).length_le
    simp only [List.length_drop, List.length_cons]
    omega
  · cases h
    simp only [List.length_cons]
    omega
  · cases h
    exact Nat.lt_succ_self _

/-- The text that is written up to the closing quote, and what stands behind that. -/
def unquote (cs : List Char) : Option (List Char × List Char) :=
  if cs.head? = some '"' then some ([], cs.tail)
  else match _hread : unescapeChar? cs with
    | none => none
    | some (c, rest) => (unquote rest).map fun (text, rest) => (c :: text, rest)
termination_by cs.length
decreasing_by exact unescapeChar?_length_lt _hread

/-- What is written between quotes is read up to the closing one. -/
theorem unquote_escaped (cs rest : List Char) :
    unquote ((cs.map fun c => (escapeChar '"' c).toList).flatten ++ '"' :: rest)
      = some (cs, rest) := by
  induction cs with
  | nil =>
    rw [unquote]
    rfl
  | cons c cs ih =>
    rw [List.map_cons, List.flatten_cons, List.append_assoc, unquote,
      if_neg (head?_escapeChar c _)]
    split
    · next hread =>
      rw [unescapeChar?_escapeChar] at hread
      cases hread
    · next hread =>
      rw [unescapeChar?_escapeChar] at hread
      cases hread
      rw [ih]
      rfl

end Edict.Text
