import MultiTape.Symbol
import MultiTape.Ascending

/-
  This file defines the set of symbols that a wildcard stands
  for. It is kept as a strictly ascending list, it always holds
  the blank symbol and it never holds the wildcard itself.

  Key definitions include:
    * `Alphabet`
    * `Alphabet.blankOnly`
    * `Alphabet.insert`
    * `Alphabet.extend`
    * `Alphabet.ofSymbols`

  Main statements:
    * `Alphabet.mem_insert`
    * `Alphabet.mem_extend`
-/

namespace MultiTape

------------------------------------------------------------
-- The order of symbols
------------------------------------------------------------

private theorem symbol_lt_of_not_lt_of_ne
    (c d : Symbol)
    (hLt : ¬ c < d)
    (hNe : c ≠ d) :
    d < c := by
  rcases Nat.lt_trichotomy c.toNat d.toNat with h | h | h
  · exact absurd (show c < d from h) hLt
  · exact absurd (Char.toNat_inj.mp h) hNe
  · exact h

------------------------------------------------------------
-- Alphabets
------------------------------------------------------------

/- The symbols a wildcard stands for, in ascending order. -/
structure Alphabet where
  symbols : List Symbol
  ascending : symbols.Pairwise (· < ·)
  blank_mem : Symbol.blank ∈ symbols
  wildcard_not_mem : Symbol.wildcard ∉ symbols
  deriving DecidableEq

namespace Alphabet

instance : Membership Symbol Alphabet where
  mem a c := c ∈ a.symbols

instance
    (a : Alphabet)
    (c : Symbol) :
    Decidable (c ∈ a) :=
  inferInstanceAs (Decidable (c ∈ a.symbols))

/- Membership is membership in the list of symbols. -/
theorem mem_def
    {a : Alphabet}
    {c : Symbol} :
    c ∈ a ↔ c ∈ a.symbols :=
  Iff.rfl

/- The least alphabet. -/
def blankOnly : Alphabet where
  symbols := [Symbol.blank]
  ascending := List.pairwise_singleton _ _
  blank_mem := List.mem_singleton.mpr rfl
  wildcard_not_mem := by decide

/- Add a symbol; the wildcard is left out. -/
def insert
    (a : Alphabet)
    (c : Symbol) : Alphabet :=
  if h : c = Symbol.wildcard then
    a
  else
    { symbols := insertAscending c a.symbols
      ascending :=
        pairwise_insertAscending
          (fun _ _ _ => Char.lt_trans)
          symbol_lt_of_not_lt_of_ne
          a.ascending
      blank_mem := mem_insertAscending.mpr (Or.inr a.blank_mem)
      wildcard_not_mem := fun hMem =>
        (mem_insertAscending.mp hMem).elim
          (fun hEq => h hEq.symm)
          a.wildcard_not_mem }

/- Add every symbol of a list; wildcards are left out. -/
def extend
    (a : Alphabet)
    (cs : List Symbol) : Alphabet :=
  cs.foldr (fun c a => a.insert c) a

/- The blank symbol and the symbols of a list but the wildcard. -/
def ofSymbols
    (cs : List Symbol) : Alphabet :=
  blankOnly.extend cs

------------------------------------------------------------
-- Members
------------------------------------------------------------

/- The members after adding one symbol. -/
theorem mem_insert
    {a : Alphabet}
    {c x : Symbol} :
    x ∈ a.insert c ↔ x ∈ a ∨ (x = c ∧ x ≠ Symbol.wildcard) := by
  unfold insert
  split
  · next hEq =>
      subst hEq
      constructor
      · exact Or.inl
      · rintro (h | ⟨rfl, h⟩)
        · exact h
        · exact absurd rfl h
  · next hNe =>
      rw [mem_def, mem_insertAscending, ← mem_def]
      constructor
      · rintro (rfl | h)
        · exact Or.inr ⟨rfl, hNe⟩
        · exact Or.inl h
      · rintro (h | ⟨rfl, -⟩)
        · exact Or.inr h
        · exact Or.inl rfl

/- The members after adding a list of symbols. -/
theorem mem_extend
    {a : Alphabet}
    {cs : List Symbol}
    {x : Symbol} :
    x ∈ a.extend cs ↔ x ∈ a ∨ (x ∈ cs ∧ x ≠ Symbol.wildcard) := by
  unfold extend
  induction cs with
  | nil => simp
  | cons c cs ih =>
      rw [List.foldr_cons, mem_insert, ih, List.mem_cons]
      constructor
      · rintro ((h | ⟨h, hw⟩) | ⟨h, hw⟩)
        · exact Or.inl h
        · exact Or.inr ⟨Or.inr h, hw⟩
        · exact Or.inr ⟨Or.inl h, hw⟩
      · rintro (h | ⟨h | h, hw⟩)
        · exact Or.inl (Or.inl h)
        · exact Or.inr ⟨h, hw⟩
        · exact Or.inl (Or.inr ⟨h, hw⟩)

/- The members of the alphabet of a list. -/
theorem mem_ofSymbols
    {cs : List Symbol}
    {x : Symbol} :
    x ∈ ofSymbols cs ↔ x = Symbol.blank ∨ (x ∈ cs ∧ x ≠ Symbol.wildcard) := by
  rw [ofSymbols, mem_extend]
  exact or_congr List.mem_singleton Iff.rfl

end Alphabet

end MultiTape
