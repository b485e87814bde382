import MultiTape.Rule
import MultiTape.SearchTree
import MultiTape.Text.Digest

/-
  This file defines finite maps from keys to actions. A map is
  a search tree, in which a digest of a key gives the way to it,
  with the number of keys.

  Key definitions include:
    * `Key.digest`
    * `Bindings`
    * `Bindings.empty`
    * `Bindings.find?`
    * `Bindings.insert`

  Main statements:
    * `Bindings.find?_insert`
    * `Bindings.size_insert`
    * `Bindings.exists_keys`
-/

namespace MultiTape

------------------------------------------------------------
-- Digests
------------------------------------------------------------

/- A number that differs for most keys. -/
def Key.digest
    (k : Key) : Nat :=
  Text.digest (Text.digest 0 k.state.toList) k.read

------------------------------------------------------------
-- Bindings
------------------------------------------------------------

/- The number of keys that have a value. -/
def Counts
    (value? : Key → Option Action)
    (n : Nat) : Prop :=
  ∃ keys : List Key,
    keys.Nodup ∧ keys.length = n ∧ ∀ k, k ∈ keys ↔ (value? k).isSome

/- The actions of finitely many keys. -/
structure Bindings where
  /- The keys with their actions. -/
  tree : SearchTree Key Action
  /- The number of keys. -/
  size : Nat
  counts : Counts (fun k => tree.find? k k.digest) size
  deriving DecidableEq

namespace Bindings

/- The action bound to a key. -/
def find?
    (b : Bindings)
    (k : Key) : Option Action :=
  b.tree.find? k k.digest

/- The size is the number of bound keys. -/
theorem exists_keys
    (b : Bindings) :
    ∃ keys : List Key,
      keys.Nodup ∧ keys.length = b.size ∧ ∀ k, k ∈ keys ↔ (b.find? k).isSome :=
  b.counts

private theorem find?_insert_tree
    (b : Bindings)
    (k l : Key)
    (a : Action) :
    (b.tree.insert k a k.digest).find? l l.digest = if k = l then some a else b.find? l :=
  SearchTree.find?_insert a b.tree (congrArg Key.digest)

/- No key is bound. -/
def empty : Bindings where
  tree := .empty
  size := 0
  counts := ⟨[], List.nodup_nil, rfl, by simp⟩

/- Bind a key, in the place of its binding if it has one. -/
def insert
    (b : Bindings)
    (k : Key)
    (a : Action) : Bindings where
  tree := b.tree.insert k a k.digest
  size := if (b.find? k).isSome then b.size else b.size + 1
  counts := by
    obtain ⟨keys, hNodup, hLength, hMem⟩ := b.exists_keys
    simp only [find?_insert_tree]
    split
    · next hBound =>
        refine ⟨keys, hNodup, hLength, fun l => ?_⟩
        by_cases hl : k = l
        · subst hl
          simpa [hMem] using hBound
        · simpa [hl] using hMem l
    · next hFree =>
        refine ⟨k :: keys, List.nodup_cons.mpr ⟨?_, hNodup⟩, by simp [hLength], fun l => ?_⟩
        · exact fun hk => hFree ((hMem k).mp hk)
        · by_cases hl : k = l
          · simp [hl]
          · simpa [hl, Ne.symm hl] using hMem l

@[simp]
theorem find?_empty
    (k : Key) :
    empty.find? k = none :=
  rfl

@[simp]
theorem size_empty :
    empty.size = 0 :=
  rfl

/- The bound key has the new action, the others keep theirs. -/
theorem find?_insert
    (b : Bindings)
    (k l : Key)
    (a : Action) :
    (b.insert k a).find? l = if k = l then some a else b.find? l :=
  find?_insert_tree b k l a

/- The size grows exactly when the key was not bound. -/
theorem size_insert
    (b : Bindings)
    (k : Key)
    (a : Action) :
    (b.insert k a).size = if (b.find? k).isSome then b.size else b.size + 1 :=
  rfl

end Bindings

end MultiTape
