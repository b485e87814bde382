import MultiTape.Proofs.Table.WriteOnce

/-
  This file says what becomes of a list of rules that are
  registered one after the other. All of them are accepted
  exactly when they fit and do not conflict, and otherwise one
  of them is the first that is refused. Once they were accepted
  they can be registered again, and nothing has changed at the
  end: outside of strict mode a rule may take back a key on the
  way that a later rule has taken from it, but then the later
  rule comes again.

  Key definitions include:
    * `Table.RefusesAt`

  Main statements:
    * `Table.registerAll_eq_ok_iff_bindAll`
    * `Table.registerAll_eq_error_iff`
    * `Table.find?_bindAll_bindAll`
    * `Table.conflict?_bindAll_eq_none`
    * `Table.registering_again_changes_nothing`
-/

namespace MultiTape

namespace Table

------------------------------------------------------------
-- Rules In Both Modes
------------------------------------------------------------

/- Rules are registered if the first is and then the others. -/
theorem registerAll_cons_eq_ok_iff
    {t last : Table}
    {r : Rule}
    {rules : List Rule}
    {counts : List Nat} :
    t.registerAll (r :: rules) = .ok (last, counts) ↔
      ∃ next g more,
        t.register r = .ok (next, g) ∧
          next.registerAll rules = .ok (last, more) ∧
          counts = g.count :: more := by
  constructor
  · intro hOk
    rw [registerAll] at hOk
    split at hOk
    · cases hOk
    · next next g hFirst =>
        cases hRest : next.registerAll rules with
        | error e =>
            rw [hRest] at hOk
            cases hOk
        | ok p =>
            rw [hRest] at hOk
            cases hOk
            exact ⟨next, g, p.2, hFirst, hRest, rfl⟩
  · rintro ⟨next, g, more, hFirst, hRest, rfl⟩
    rw [registerAll, hFirst]
    simp only [hRest]
    rfl

/-
  Rules are registered one after the other exactly when all of
  them fit and, in strict mode, there is no conflict among all
  that they stand for. The table that they lead to is as if all
  of it was bound at once.
-/
theorem registerAll_eq_ok_iff_bindAll
    {t last : Table}
    {rules : List Rule}
    {counts : List Nat} :
    t.registerAll rules = .ok (last, counts) ↔
      (∀ r ∈ rules, r.Fits t.tapes) ∧
        (t.mode = .strict →
          conflict? t.bindings (rules.flatMap t.expand) =
            none) ∧
        last =
          { t with
            bindings :=
              (bindAll t.bindings
                (rules.flatMap t.expand)).1 } ∧
        counts = rules.map fun r => (t.expand r).length := by
  induction rules generalizing t last counts with
  | nil =>
      constructor
      · intro hOk
        cases hOk
        exact ⟨List.forall_mem_nil _, fun _ => rfl, rfl, rfl⟩
      · rintro ⟨_hFits, _hFree, rfl, rfl⟩
        rfl
  | cons r rules ih =>
      rw [registerAll_cons_eq_ok_iff, List.flatMap_cons,
        conflict?_append, bindAll_append,
        Option.or_eq_none_iff, List.forall_mem_cons]
      constructor
      · rintro ⟨next, g, more, hFirst, hRest, rfl⟩
        rcases register_eq_ok_iff.mp hFirst with
          ⟨hFits, hFree, rfl, rfl⟩
        rcases ih.mp hRest with ⟨hAll, hMore, rfl, rfl⟩
        exact
          ⟨⟨hFits, hAll⟩,
            fun hMode => ⟨hFree hMode, hMore hMode⟩, rfl, rfl⟩
      · rintro ⟨⟨hFits, hAll⟩, hFree, rfl, rfl⟩
        refine
          ⟨_, _, _,
            register_eq_ok_iff.mpr
              ⟨hFits, fun hMode => (hFree hMode).1, rfl, rfl⟩,
            ih.mpr ⟨hAll, ?_, rfl, rfl⟩, rfl⟩
        exact fun hMode => (hFree hMode).2

/- Outside of strict mode rules that fit are all registered. -/
theorem exists_registerAll_eq_ok
    {t : Table}
    {rules : List Rule}
    (hMode : t.mode = .overwrite)
    (hFits : ∀ r ∈ rules, r.Fits t.tapes) :
    ∃ last counts, t.registerAll rules = .ok (last, counts) := by
  refine
    ⟨_, _,
      registerAll_eq_ok_iff_bindAll.mpr
        ⟨hFits, fun hStrict => ?_, rfl, rfl⟩⟩
  rw [hMode] at hStrict
  cases hStrict

------------------------------------------------------------
-- The First Rule That Is Refused
------------------------------------------------------------

/-
  The rule with this number, counted from zero, is refused, with
  this error, after the rules before it were registered.
-/
def RefusesAt
    (t : Table)
    (rules : List Rule)
    (i : Nat)
    (e : Error) : Prop :=
  ∃ r next counts,
    rules[i]? = some r ∧
      t.registerAll (rules.take i) = .ok (next, counts) ∧
      next.register r = .error e

/- The first rule of a list is refused by the table itself. -/
theorem refusesAt_zero
    {t : Table}
    {r : Rule}
    {rules : List Rule}
    {e : Error}
    (hError : t.register r = .error e) :
    t.RefusesAt (r :: rules) 0 e :=
  ⟨r, t, [], rfl, rfl, hError⟩

/- A rule in front moves the one that is refused by a place. -/
theorem RefusesAt.cons
    {t next : Table}
    {r : Rule}
    {rules : List Rule}
    {g : Registration}
    {i : Nat}
    {e : Error}
    (hFirst : t.register r = .ok (next, g))
    (hRefuses : next.RefusesAt rules i e) :
    t.RefusesAt (r :: rules) (i + 1) e := by
  rcases hRefuses with
    ⟨rule, last, counts, hItem, hBefore, hError⟩
  exact
    ⟨rule, last, g.count :: counts, hItem,
      registerAll_cons_eq_ok_iff.mpr
        ⟨next, g, counts, hFirst, hBefore, rfl⟩,
      hError⟩

/- Rules are not all registered exactly when one is refused. -/
theorem registerAll_eq_error_iff
    {t : Table}
    {rules : List Rule}
    {e : Error} :
    t.registerAll rules = .error e ↔
      ∃ i, t.RefusesAt rules i e := by
  induction rules generalizing t with
  | nil =>
      constructor
      · intro hError
        cases hError
      · rintro ⟨i, r, next, counts, hItem, _hBefore, _hError⟩
        cases hItem
  | cons r rules ih =>
      constructor
      · intro hError
        rw [registerAll] at hError
        split at hError
        · next e' hFirst =>
            cases hError
            exact ⟨0, refusesAt_zero hFirst⟩
        · next next g hFirst =>
            cases hRest : next.registerAll rules with
            | ok p =>
                rw [hRest] at hError
                cases hError
            | error e' =>
                rw [hRest] at hError
                cases hError
                rcases ih.mp hRest with ⟨i, hRefuses⟩
                exact ⟨i + 1, hRefuses.cons hFirst⟩
      · rintro ⟨i, rule, last, counts, hItem, hBefore, hRefused⟩
        cases i with
        | zero =>
            cases hItem
            cases hBefore
            rw [registerAll, hRefused]
        | succ i =>
            rcases registerAll_cons_eq_ok_iff.mp hBefore with
              ⟨next, g, more, hFirst, hRest, _hCounts⟩
            have hError :=
              ih.mpr ⟨i, rule, last, more, hItem, hRest, hRefused⟩
            rw [registerAll, hFirst]
            simp only [hError]
            rfl

------------------------------------------------------------
-- The Same Rules Again
------------------------------------------------------------

/- Binding rules again leaves every key with its action. -/
theorem find?_bindAll_bindAll
    (b : Bindings)
    (rules : List Rule)
    (k : Key) :
    (bindAll (bindAll b rules).1 rules).1.find? k =
      (bindAll b rules).1.find? k := by
  rw [find?_bindAll, find?_bindAll]
  cases lastAction? k rules with
  | none => rfl
  | some a => rfl

/- Rules that were bound without a conflict have none again. -/
theorem conflict?_bindAll_eq_none
    {b : Bindings}
    {rules : List Rule}
    (hNone : conflict? b rules = none) :
    conflict? (bindAll b rules).1 rules = none := by
  apply conflict?_eq_none_of_forall_find?
  intro r hMem
  rw [find?_bindAll_eq_some_iff hNone]
  exact Or.inr ⟨r, hMem, rfl, rfl⟩

/-
  If all rules of a list are registered, in whatever mode, then
  all of them are registered once more when they are given
  again. Each stands for as many rules as before, and then every
  key has the action that it had, and there are as many.
-/
theorem registering_again_changes_nothing
    {t last : Table}
    {rules : List Rule}
    {counts : List Nat}
    (hOk : t.registerAll rules = .ok (last, counts)) :
    ∃ again,
      last.registerAll rules = .ok (again, counts) ∧
        (∀ state symbols,
          again.lookup state symbols =
            last.lookup state symbols) ∧
        again.size = last.size := by
  rcases registerAll_eq_ok_iff_bindAll.mp hOk with
    ⟨hFits, hFree, rfl, rfl⟩
  -- The tapes, the mode and the alphabet are those of before,
  -- so each rule fits and stands for the same rules.
  have hFind :=
    find?_bindAll_bindAll t.bindings (rules.flatMap t.expand)
  refine
    ⟨_, registerAll_eq_ok_iff_bindAll.mpr
      ⟨hFits, ?_, rfl, rfl⟩, ?_, ?_⟩
  · intro hMode
    exact conflict?_bindAll_eq_none (hFree hMode)
  · intro state symbols
    exact hFind ⟨state, symbols⟩
  · exact Bindings.size_eq_of_find?_eq hFind

/- A table for one tape in which later rules win. -/
def lenientOne : Table :=
  ofSymbols 1 ['a', 'b']

/-
  Rules of which the second takes a key from the first, and the
  third takes one from the first and from itself.
-/
def overlapping : List Rule :=
  [passing Symbol.wildcard "q", passing 'a' "p", guessing]

/- The table with these rules. -/
def overlapped : Table :=
  lenientOne.editAll (overlapping.map .register)

/-
  When these rules are given again, the first takes both keys
  back, with a warning for each. In the end they have the
  actions that they had.
-/
theorem registering_overlapping_again :
    lenientOne.registerAll overlapping =
        .ok (overlapped, [3, 1, 3]) ∧
      (∃ again,
        overlapped.registerAll overlapping =
            .ok (again, [3, 1, 3]) ∧
          (∀ state symbols,
            again.lookup state symbols =
              overlapped.lookup state symbols) ∧
          again.size = overlapped.size) ∧
      overlapped.lookup "p" ['a'] =
        some ⟨"p", ['a'], [.right]⟩ ∧
      ∃ next g,
        overlapped.register (passing Symbol.wildcard "q") =
            .ok (next, g) ∧
          g.overwritten = [⟨"p", ['_']⟩, ⟨"p", ['a']⟩] ∧
          next.lookup "p" ['a'] =
            some ⟨"q", ['a'], [.right]⟩ := by
  have hOk :
      lenientOne.registerAll overlapping =
        .ok (overlapped, [3, 1, 3]) :=
    rfl
  exact
    ⟨hOk, registering_again_changes_nothing hOk, by decide, _,
      _, rfl, by decide, by decide⟩

end Table

end MultiTape
