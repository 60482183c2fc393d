/-! # Tables

A table holds at most one thing per key.  Putting a thing under a key that is taken replaces the one
there.
-/

namespace Edict

/-- Things by key. -/
structure Table (κ α : Type) where
  entries : List (κ × α)
deriving Inhabited

namespace Table

variable {κ α : Type} [DecidableEq κ]

def empty : Table κ α := ⟨[]⟩

def find? (t : Table κ α) (key : κ) : Option α := t.entries.lookup key

def contains (t : Table κ α) (key : κ) : Bool := (t.find? key).isSome

def erase (t : Table κ α) (key : κ) : Table κ α := ⟨t.entries.filter (·.1 ≠ key)⟩

/-- The table with `a` under a key, in place of what was there. -/
def insert (t : Table κ α) (key : κ) (a : α) : Table κ α := ⟨(key, a) :: (t.erase key).entries⟩

omit [DecidableEq κ] in
def size (t : Table κ α) : Nat := t.entries.length

omit [DecidableEq κ] in
/-- The names of a table with names for keys, in alphabetical order. -/
def names (t : Table String α) : List String := (t.entries.map (·.1)).mergeSort (· ≤ ·)

/-! ## What the operations do to look-ups -/

theorem lookup_filter_ne (key other : κ) (entries : List (κ × α)) :
    (entries.filter (·.1 ≠ key)).lookup other
      = if other = key then none else entries.lookup other := by
  induction entries with
  | nil => simp
  | cons e es ih =>
    obtain ⟨k, a⟩ := e
    by_cases hk : k = key
    · subst hk
      by_cases ho : other = k
      · subst ho
        simpa using ih
      · have hne : (other == k) = false := by simpa using ho
        simpa [List.lookup_cons, hne, ho] using ih
    · by_cases ho : other = k
      · subst ho
        simp [hk]
      · have hne : (other == k) = false := by simpa using ho
        simpa [List.lookup_cons, hne, hk] using ih

theorem find?_erase (t : Table κ α) (key other : κ) :
    (t.erase key).find? other = if other = key then none else t.find? other :=
  lookup_filter_ne key other t.entries

/-- The newest entry of a key is the one that is found. -/
theorem find?_insert (t : Table κ α) (key other : κ) (a : α) :
    (t.insert key a).find? other = if other = key then some a else t.find? other := by
  by_cases ho : other = key
  · subst ho
    simp [insert, find?]
  · have hne : (other == key) = false := by simpa using ho
    have herase := find?_erase t key other
    simp only [ho, if_false] at herase
    simpa [insert, find?, List.lookup_cons, hne, ho] using herase

/-! ## What holds of all that is in a table -/

section

variable {t : Table κ α} {p : α → Prop}

theorem forall_empty : ∀ key a, (empty : Table κ α).find? key = some a → p a := by
  intro key a hfind
  cases hfind

/-- What holds of all entries, and of a new one, holds of all entries with the new one. -/
theorem forall_insert (h : ∀ key a, t.find? key = some a → p a) {b : α} (hb : p b) (name : κ) :
    ∀ key a, (t.insert name b).find? key = some a → p a := by
  intro key a hfind
  rw [find?_insert] at hfind
  split at hfind
  · cases hfind
    exact hb
  · exact h key a hfind

theorem forall_erase (h : ∀ key a, t.find? key = some a → p a) (name : κ) :
    ∀ key a, (t.erase name).find? key = some a → p a := by
  intro key a hfind
  rw [find?_erase] at hfind
  split at hfind
  · cases hfind
  · exact h key a hfind

end

end Table

end Edict
