/-
  This file defines digital search trees. Every node holds one
  entry. The bits of a number, from the lowest on, give the way
  down to a key: to one side at a zero, to the other at a one.
  The tree stays shallow if the numbers of the keys differ early,
  and it is right for any numbers.

  Key definitions include:
    * `SearchTree`
    * `SearchTree.find?`
    * `SearchTree.insert`

  Main statements:
    * `SearchTree.find?_insert`
-/

namespace MultiTape

/- A tree with an entry at every node. -/
inductive SearchTree (α β : Type) where
  | empty
  | node (key : α) (value : β) (zero one : SearchTree α β)
  deriving DecidableEq, Repr

namespace SearchTree

variable {α β : Type} [DecidableEq α]

/- The value of a key, on the way that a number gives. -/
def find?
    (k : α) : Nat → SearchTree α β → Option β
  | _, empty => none
  | n, node l b zero one =>
      if l = k then
        some b
      else if n % 2 = 0 then
        find? k (n / 2) zero
      else
        find? k (n / 2) one

/- Give a key a value, on the way that a number gives. -/
def insert
    (k : α)
    (a : β) : Nat → SearchTree α β → SearchTree α β
  | _, empty => node k a empty empty
  | n, node l b zero one =>
      if l = k then
        node k a zero one
      else if n % 2 = 0 then
        node l b (insert k a (n / 2) zero) one
      else
        node l b zero (insert k a (n / 2) one)

@[simp]
theorem find?_empty
    (k : α)
    (n : Nat) :
    find? k n (empty : SearchTree α β) = none :=
  rfl

/-
  The key has the new value and the others keep theirs, if the
  key is always looked for on the same way.
-/
theorem find?_insert
    {k l : α}
    {n m : Nat}
    (a : β)
    (t : SearchTree α β)
    (h : k = l → n = m) :
    find? l m (insert k a n t) = if k = l then some a else find? l m t := by
  induction t generalizing n m with
  | empty => simp [insert, find?]
  | node p b zero one ihZero ihOne =>
      have hHalf : k = l → n / 2 = m / 2 := fun hEq => by rw [h hEq]
      unfold insert
      by_cases hp : p = k
      · subst hp
        by_cases hl : p = l <;> simp [find?, hl]
      · rw [if_neg hp]
        by_cases hpl : p = l
        · subst hpl
          split <;> simp [find?, Ne.symm hp]
        · by_cases hn : n % 2 = 0 <;> by_cases hm : m % 2 = 0
          · simp [find?, hn, hm, hpl, ihZero hHalf]
          · have hkl : k ≠ l := fun hEq => hm (h hEq ▸ hn)
            simp [find?, hn, hm, hpl, hkl]
          · have hkl : k ≠ l := fun hEq => hn (h hEq ▸ hm)
            simp [find?, hn, hm, hpl, hkl]
          · simp [find?, hn, hm, hpl, ihOne hHalf]

end SearchTree

end MultiTape
