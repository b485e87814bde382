/-
  This file keeps lists strictly ascending, so that they stand
  for finite sets with one order of their members.

  Key definitions include:
    * `insertAscending`
    * `ascending`

  Main statements:
    * `mem_insertAscending`
    * `pairwise_insertAscending`
    * `mem_ascending`
    * `pairwise_ascending`
-/

namespace MultiTape

variable {α : Type} [LT α] [DecidableLT α] [DecidableEq α]

/- Put an element in its place in an ascending list, once. -/
def insertAscending
    (a : α) : List α → List α
  | [] => [a]
  | b :: bs =>
      if a < b then
        a :: b :: bs
      else if a = b then
        b :: bs
      else
        b :: insertAscending a bs

/- The members of a list, ascending and each once. -/
def ascending
    (as : List α) : List α :=
  as.foldr insertAscending []

/- The members are the old ones and the new one. -/
theorem mem_insertAscending
    {a x : α}
    {bs : List α} :
    x ∈ insertAscending a bs ↔ x = a ∨ x ∈ bs := by
  induction bs with
  | nil => simp [insertAscending]
  | cons b bs ih =>
      unfold insertAscending
      split
      · simp
      · split
        · next hEq =>
            subst hEq
            simp
        · simp only [List.mem_cons, ih]
          constructor <;> (rintro (h | h | h) <;> simp [h])

/-
  An ascending list stays ascending, if the order is transitive
  and compares any two elements.
-/
theorem pairwise_insertAscending
    {a : α}
    {bs : List α}
    (hTrans : ∀ x y z : α, x < y → y < z → x < z)
    (hConnected : ∀ x y : α, ¬ x < y → x ≠ y → y < x)
    (h : bs.Pairwise (· < ·)) :
    (insertAscending a bs).Pairwise (· < ·) := by
  induction bs with
  | nil => simp [insertAscending]
  | cons b bs ih =>
      obtain ⟨hHead, hTail⟩ := List.pairwise_cons.mp h
      unfold insertAscending
      split
      · next hLt =>
          refine List.pairwise_cons.mpr ⟨?_, h⟩
          intro x hx
          rcases List.mem_cons.mp hx with rfl | hx
          · exact hLt
          · exact hTrans a b x hLt (hHead x hx)
      · next hLt =>
          split
          · exact h
          · next hNe =>
              refine List.pairwise_cons.mpr ⟨?_, ih hTail⟩
              intro x hx
              rcases mem_insertAscending.mp hx with rfl | hx
              · exact hConnected x b hLt hNe
              · exact hHead x hx

/- Sorting keeps the members. -/
theorem mem_ascending
    {x : α}
    {as : List α} :
    x ∈ ascending as ↔ x ∈ as := by
  unfold ascending
  induction as with
  | nil => simp
  | cons a as ih => rw [List.foldr_cons, mem_insertAscending, ih, List.mem_cons]

/-
  The result is ascending, if the order is transitive and
  compares any two elements.
-/
theorem pairwise_ascending
    {as : List α}
    (hTrans : ∀ x y z : α, x < y → y < z → x < z)
    (hConnected : ∀ x y : α, ¬ x < y → x ≠ y → y < x) :
    (ascending as).Pairwise (· < ·) := by
  unfold ascending
  induction as with
  | nil => exact List.Pairwise.nil
  | cons a as ih => exact pairwise_insertAscending hTrans hConnected ih

end MultiTape
