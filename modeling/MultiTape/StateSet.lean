import MultiTape.SearchTree
import MultiTape.Symbol
import MultiTape.Text.Digest

/-
  This file defines finite sets of states, in which a state is
  found without going through all of them.

  Key definitions include:
    * `StateSet`
    * `StateSet.insert`
    * `StateSet.ofList`

  Main statements:
    * `StateSet.mem_insert`
    * `StateSet.mem_ofList`
-/

namespace MultiTape

/- A set of states. -/
structure StateSet where
  tree : SearchTree State Unit
  deriving DecidableEq, Repr

namespace StateSet

/- The number that gives the way to a state. -/
def digest
    (s : State) : Nat :=
  Text.digest 0 s.toList

instance : Membership State StateSet where
  mem set s := (set.tree.find? s (digest s)).isSome = true

instance
    (s : State)
    (set : StateSet) :
    Decidable (s ∈ set) :=
  inferInstanceAs (Decidable ((set.tree.find? s (digest s)).isSome = true))

/- Membership is being found. -/
theorem mem_def
    {s : State}
    {set : StateSet} :
    s ∈ set ↔ (set.tree.find? s (digest s)).isSome = true :=
  Iff.rfl

/- The set without states. -/
def empty : StateSet where
  tree := .empty

/- Add a state. -/
def insert
    (set : StateSet)
    (s : State) : StateSet where
  tree := set.tree.insert s () (digest s)

/- The states of a list. -/
def ofList
    (states : List State) : StateSet :=
  states.foldl insert empty

/- The members after adding a state. -/
theorem mem_insert
    {set : StateSet}
    {s t : State} :
    t ∈ set.insert s ↔ s = t ∨ t ∈ set := by
  rw [mem_def, insert, SearchTree.find?_insert () set.tree (congrArg digest), mem_def]
  split <;> simp [*]

private theorem mem_foldl_insert
    {states : List State}
    {set : StateSet}
    {t : State} :
    t ∈ states.foldl insert set ↔ t ∈ states ∨ t ∈ set := by
  induction states generalizing set with
  | nil => simp
  | cons s states ih =>
      rw [List.foldl_cons, ih, mem_insert, List.mem_cons, or_left_comm, or_assoc, eq_comm]

/- The members of the set of a list. -/
theorem mem_ofList
    {states : List State}
    {t : State} :
    t ∈ ofList states ↔ t ∈ states := by
  rw [ofList, mem_foldl_insert]
  simp [mem_def, empty]

end StateSet

end MultiTape
