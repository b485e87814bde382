import MultiTape.Proofs.Description.Assembly
import MultiTape.Proofs.Description.Buildable

/-
  This file compares the two places at which the entries of a
  rule are counted. The examination of a description looks for
  one rule that does not fit, and the table of a machine checks
  each rule when it is registered. Both come upon the same rule,
  unless a conflict ends the strict build before.

  Key definitions include:
    * `Rule.Misfit`
    * `FirstMisfit`

  Main statements:
    * `Table.misfit?_eq_some_iff`
    * `Description.inconsistentArity_mem_findings_iff_firstMisfit`
    * `Table.RefusesAt.firstMisfit`
    * `FirstMisfit.refusesAt`
    * `Description.examination_and_table_agree_on_arity`
-/

namespace MultiTape

------------------------------------------------------------
-- Rules That Do Not Fit
------------------------------------------------------------

/-
  The part is the first of a rule that has not one entry for
  every tape, with the number of its entries.
-/
inductive Rule.Misfit
    (tapes : Nat)
    (r : Rule) : RulePart → Nat → Prop where
  | read
      (hRead : r.read.length ≠ tapes) :
      Misfit tapes r .read r.read.length
  | write
      (hRead : r.read.length = tapes)
      (hWrite : r.write.length ≠ tapes) :
      Misfit tapes r .write r.write.length
  | moves
      (hRead : r.read.length = tapes)
      (hWrite : r.write.length = tapes)
      (hMoves : r.moves.length ≠ tapes) :
      Misfit tapes r .moves r.moves.length

/- A rule that does not fit has a first part that does not. -/
theorem Rule.exists_misfit_iff
    {tapes : Nat}
    {r : Rule} :
    (∃ part found, r.Misfit tapes part found) ↔
      ¬ r.Fits tapes := by
  constructor
  · rintro ⟨part, found, hMisfit⟩ hFits
    cases hMisfit with
    | read hRead => exact hRead hFits.read
    | write _hRead hWrite => exact hWrite hFits.write
    | moves _hRead _hWrite hMoves => exact hMoves hFits.moves
  · intro hNot
    by_cases hRead : r.read.length = tapes
    · by_cases hWrite : r.write.length = tapes
      · have hMoves : r.moves.length ≠ tapes :=
          fun hMoves => hNot ⟨hRead, hWrite, hMoves⟩
        exact ⟨_, _, .moves hRead hWrite hMoves⟩
      · exact ⟨_, _, .write hRead hWrite⟩
    · exact ⟨_, _, .read hRead⟩

/-
  The rule with this number, counted from zero, is the first of
  a list that does not fit.
-/
structure FirstMisfit
    (tapes : Nat)
    (rules : List Rule)
    (i : Nat)
    (r : Rule) : Prop where
  item : rules[i]? = some r
  misfit : ¬ r.Fits tapes
  earlier : ∀ q ∈ rules.take i, q.Fits tapes

------------------------------------------------------------
-- The Examination
------------------------------------------------------------

namespace Description

/- The examination finds the state of the first rule that does not fit. -/
theorem inconsistentArity_mem_findings_iff_firstMisfit
    {d : Description}
    {state : State} :
    .inconsistentArity state ∈ d.findings ↔
      ∃ i r, FirstMisfit d.tapes d.rules i r ∧ r.state = state := by
  rw [inconsistentArity_mem_findings_iff, checkArity,
    Option.map_eq_some_iff]
  simp only [Finding.inconsistentArity.injEq]
  constructor
  · rintro ⟨r, hFind, rfl⟩
    rcases List.find?_eq_some_iff_getElem.mp hFind with
      ⟨hMisfit, i, hIndex, hItem, hEarlier⟩
    refine
      ⟨i, r, ⟨List.getElem?_eq_some_iff.mpr ⟨hIndex, hItem⟩,
        ?_, ?_⟩, rfl⟩
    · intro hFits
      simp [hFits.read, hFits.write, hFits.moves] at hMisfit
    · intro q hMem
      rcases List.mem_take_iff_getElem.mp hMem with
        ⟨j, hj, rfl⟩
      have hFits := hEarlier j (by omega)
      simp only [ne_eq, Bool.decide_or, decide_not,
        Bool.not_or, Bool.not_not, Bool.and_eq_true,
        decide_eq_true_eq] at hFits
      exact ⟨hFits.1, hFits.2.1, hFits.2.2⟩
  · rintro ⟨i, r, hFirst, rfl⟩
    refine ⟨r, ?_, rfl⟩
    rcases List.getElem?_eq_some_iff.mp hFirst.item with
      ⟨hIndex, hItem⟩
    refine
      List.find?_eq_some_iff_getElem.mpr
        ⟨?_, i, hIndex, hItem, ?_⟩
    · rcases Rule.exists_misfit_iff.mpr hFirst.misfit with
        ⟨part, found, hMisfit⟩
      cases hMisfit with
      | read hRead => simp [hRead]
      | write _hRead hWrite => simp [hWrite]
      | moves _hRead _hWrite hMoves => simp [hMoves]
    · intro j hj
      have hMem : d.rules[j] ∈ d.rules.take i :=
        List.mem_take_iff_getElem.mpr ⟨j, by omega, rfl⟩
      have hFits := hFirst.earlier _ hMem
      simp [hFits.read, hFits.write, hFits.moves]

/- No rule is found to lack entries exactly where all fit. -/
theorem forall_inconsistentArity_not_mem_iff
    {d : Description} :
    (∀ state, .inconsistentArity state ∉ d.findings) ↔
      ∀ r ∈ d.rules, r.Fits d.tapes := by
  simp only [inconsistentArity_mem_findings_iff]
  rw [← checkArity_eq_none_iff]
  constructor
  · intro hNone
    cases hCheck : d.checkArity with
    | none => rfl
    | some f =>
        rcases Option.map_eq_some_iff.mp hCheck with
          ⟨r, _hFind, rfl⟩
        exact absurd hCheck (hNone r.state)
  · intro hNone state hFound
    rw [hNone] at hFound
    cases hFound

end Description

------------------------------------------------------------
-- The Table
------------------------------------------------------------

/- The check of the table tells the first part that does not fit. -/
theorem Table.misfit?_eq_some_iff
    {t : Table}
    {r : Rule}
    {e : Error} :
    t.misfit? r = some e ↔
      ∃ part found,
        r.Misfit t.tapes part found ∧
          e = .malformedRule r.state part found t.tapes := by
  unfold misfit?
  constructor
  · intro hSome
    split at hSome
    · next hRead =>
        exact ⟨_, _, .read hRead, (Option.some.inj hSome).symm⟩
    · next hRead =>
        have hRead := not_not.mp hRead
        split at hSome
        · next hWrite =>
            exact
              ⟨_, _, .write hRead hWrite,
                (Option.some.inj hSome).symm⟩
        · next hWrite =>
            have hWrite := not_not.mp hWrite
            split at hSome
            · next hMoves =>
                exact
                  ⟨_, _, .moves hRead hWrite hMoves,
                    (Option.some.inj hSome).symm⟩
            · cases hSome
  · rintro ⟨part, found, hMisfit, rfl⟩
    cases hMisfit with
    | read hRead => rw [if_pos hRead]
    | write hRead hWrite =>
        rw [if_neg (not_not.mpr hRead), if_pos hWrite]
    | moves hRead hWrite hMoves =>
        rw [if_neg (not_not.mpr hRead),
          if_neg (not_not.mpr hWrite), if_pos hMoves]

/- A rule is refused as malformed exactly when it does not fit. -/
theorem Table.register_eq_malformedRule_iff
    {t : Table}
    {r : Rule}
    {state : State}
    {part : RulePart}
    {found expected : Nat} :
    t.register r =
        .error (.malformedRule state part found expected) ↔
      r.Misfit t.tapes part found ∧
        state = r.state ∧ expected = t.tapes := by
  rw [register_eq_error_iff, misfit?_eq_some_iff]
  constructor
  · rintro (⟨part', found', hMisfit, hSame⟩ |
      ⟨_hFits, _hMode, key, _hConflict, hSame⟩)
    · cases hSame
      exact ⟨hMisfit, rfl, rfl⟩
    · cases hSame
  · rintro ⟨hMisfit, rfl, rfl⟩
    exact Or.inl ⟨part, found, hMisfit, rfl⟩

/-
  In whatever mode a rule of a list is refused as malformed, it
  is the first one that does not fit.
-/
theorem Table.RefusesAt.firstMisfit
    {t : Table}
    {rules : List Rule}
    {i : Nat}
    {state : State}
    {part : RulePart}
    {found expected : Nat}
    (hRefuses :
      t.RefusesAt rules i
        (.malformedRule state part found expected)) :
    ∃ r,
      FirstMisfit t.tapes rules i r ∧
        r.Misfit t.tapes part found ∧ state = r.state := by
  rcases hRefuses with
    ⟨r, next, counts, hItem, hBefore, hRefused⟩
  rcases registerAll_eq_ok_iff_bindAll.mp hBefore with
    ⟨hFits, _hFree, rfl, _hCounts⟩
  rcases register_eq_malformedRule_iff.mp hRefused with
    ⟨hMisfit, hState, _hTapes⟩
  have hNot := Rule.exists_misfit_iff.mp ⟨part, found, hMisfit⟩
  exact ⟨r, ⟨hItem, hNot, hFits⟩, hMisfit, hState⟩

/- Outside of strict mode no rule is refused before that one. -/
theorem FirstMisfit.refusesAt
    {t : Table}
    {rules : List Rule}
    {i : Nat}
    {r : Rule}
    {part : RulePart}
    {found : Nat}
    (hMode : t.mode = .overwrite)
    (hFirst : FirstMisfit t.tapes rules i r)
    (hMisfit : r.Misfit t.tapes part found) :
    t.RefusesAt rules i
      (.malformedRule r.state part found t.tapes) := by
  rcases Table.exists_registerAll_eq_ok hMode hFirst.earlier with
    ⟨next, counts, hBefore⟩
  refine ⟨r, next, counts, hFirst.item, hBefore, ?_⟩
  rcases Table.registerAll_eq_ok_iff_bindAll.mp hBefore with
    ⟨_hFits, _hFree, rfl, _hCounts⟩
  exact
    Table.register_eq_malformedRule_iff.mpr
      ⟨hMisfit, rfl, rfl⟩

------------------------------------------------------------
-- Both Checks
------------------------------------------------------------

namespace Description

/-
  Outside of strict mode a rule is found to lack entries exactly
  if the build fails at it.
-/
theorem inconsistentArity_mem_findings_iff_result
    {d : Description}
    (hTapes : d.HasTapes)
    (hMode : d.mode = .overwrite)
    {state : State} :
    .inconsistentArity state ∈ d.findings ↔
      ∃ i r part found,
        FirstMisfit d.tapes d.rules i r ∧
          r.Misfit d.tapes part found ∧
          state = r.state ∧
          (Machine.ofDescription d).result =
            .error
              (.malformedRule state part found d.tapes) := by
  rw [inconsistentArity_mem_findings_iff_firstMisfit]
  constructor
  · rintro ⟨i, r, hFirst, rfl⟩
    rcases Rule.exists_misfit_iff.mpr hFirst.misfit with
      ⟨part, found, hMisfit⟩
    have hRefuses :=
      hFirst.refusesAt (t := d.emptyTable) hMode hMisfit
    exact
      ⟨i, r, part, found, hFirst, hMisfit, rfl,
        result_ofDescription_eq_error_iff.mpr
          ⟨some i, .rule hTapes hRefuses⟩⟩
  · rintro ⟨i, r, _part, _found, hFirst, _hMisfit, rfl, _hError⟩
    exact ⟨i, r, hFirst, rfl⟩

/-
  Where the number of tapes is one that a machine can have, the
  examination and the table agree. Outside of strict mode a rule
  is found to lack entries exactly if the build fails; it fails
  at that rule, the first one that does not fit, and names its
  state and its first part that does not, with the numbers of
  entries. A strict build that ends so ends at that rule too,
  and if it succeeds then no rule is found to lack entries.
-/
theorem examination_and_table_agree_on_arity
    {d : Description}
    (hPos : 1 ≤ d.tapes)
    (hMax : d.tapes ≤ maxTapes) :
    let build := (Machine.ofDescription d).result
    (d.mode = .overwrite →
      (∀ state,
        .inconsistentArity state ∈ d.findings ↔
          ∃ i r part found,
            FirstMisfit d.tapes d.rules i r ∧
              r.Misfit d.tapes part found ∧
              state = r.state ∧
              build =
                .error
                  (.malformedRule state part found d.tapes)) ∧
        ((∃ state, .inconsistentArity state ∈ d.findings) ↔
          ∃ e, build = .error e) ∧
        ((∀ state, .inconsistentArity state ∉ d.findings) →
          ∃ m, build = .ok m)) ∧
      (d.mode = .strict →
        (∀ state part found expected,
          build =
              .error
                (.malformedRule state part found expected) →
            .inconsistentArity state ∈ d.findings) ∧
          ((∃ m, build = .ok m) →
            ∀ state,
              .inconsistentArity state ∉ d.findings)) := by
  intro build
  have hTapes : d.HasTapes := ⟨hPos, hMax⟩
  constructor
  · intro hMode
    have hBuilt :
        (∀ state, .inconsistentArity state ∉ d.findings) →
          ∃ m, build = .ok m := by
      intro hNone
      exact
        exists_result_ofDescription_eq_ok hTapes hMode
          (forall_inconsistentArity_not_mem_iff.mp hNone)
    refine
      ⟨fun state =>
          inconsistentArity_mem_findings_iff_result hTapes hMode,
        ?_, hBuilt⟩
    constructor
    · rintro ⟨state, hFound⟩
      rcases (inconsistentArity_mem_findings_iff_result
          hTapes hMode).mp hFound with
        ⟨_i, _r, _part, _found, _hFirst, _hMisfit, _hState,
          hError⟩
      exact ⟨_, hError⟩
    · rintro ⟨e, hError⟩
      by_contra hNone
      rcases hBuilt (not_exists.mp hNone) with ⟨m, hOk⟩
      cases hError.symm.trans hOk
  · intro _hMode
    constructor
    · intro state part found expected hError
      rcases result_ofDescription_eq_error_iff.mp hError with
        ⟨place, hFails⟩
      cases hFails with
      | rule _hTapes hRefuses =>
          rcases hRefuses.firstMisfit with
            ⟨r, hFirst, _hMisfit, hState⟩
          exact
            inconsistentArity_mem_findings_iff_firstMisfit.mpr
              ⟨_, r, hFirst, hState.symm⟩
    · rintro ⟨m, hOk⟩
      rcases result_ofDescription_eq_ok_iff.mp hOk with
        ⟨_hTapes, t, counts, hAll, _hm⟩
      exact
        forall_inconsistentArity_not_mem_iff.mpr
          (Table.registerAll_eq_ok_iff_bindAll.mp hAll).1

/-
  A rule with wildcards that fits, one that writes and moves on
  one tape only, and one that reads from one tape only.
-/
def lopsided : Description :=
  { name := "lopsided"
    tapes := 2
    input := ['a']
    states := ["wide", "narrow"]
    start := "wide"
    accept := []
    mode := .overwrite
    rules :=
      [{ state := "wide"
         read := [Symbol.wildcard, Symbol.wildcard]
         nextState := "narrow"
         write := [Symbol.wildcard, 'a']
         moves := [.right, .stay] },
       { state := "narrow"
         read := ['a', Symbol.blank]
         nextState := "wide"
         write := ['a']
         moves := [.left] },
       { state := "wide"
         read := ['a']
         nextState := "wide"
         write := ['a', 'a']
         moves := [.stay, .stay] }] }

/-
  Both checks come upon the second rule, for what it writes. So
  does the strict build.
-/
theorem arity_of_lopsided :
    1 ≤ lopsided.tapes ∧
      lopsided.tapes ≤ maxTapes ∧
      .inconsistentArity "narrow" ∈ lopsided.findings ∧
      (∃ i r,
        FirstMisfit 2 lopsided.rules i r ∧
          r.Misfit 2 .write 1 ∧
          (Machine.ofDescription lopsided).result =
            .error (.malformedRule r.state .write 1 2)) ∧
      .inconsistentArity "narrow" ∈
        { lopsided with mode := .strict }.findings := by
  have hPos : 1 ≤ lopsided.tapes := by
    decide
  have hMax : lopsided.tapes ≤ maxTapes := by
    decide
  have hBuild :
      (Machine.ofDescription lopsided).result =
        .error (.malformedRule "narrow" .write 1 2) :=
    rfl
  have hLenient :=
    (examination_and_table_agree_on_arity hPos hMax).1 rfl
  have hStrict :=
    (examination_and_table_agree_on_arity
      (d := { lopsided with mode := .strict }) hPos hMax).2 rfl
  rcases hLenient.2.1.mpr ⟨_, hBuild⟩ with ⟨state, hFound⟩
  rcases (hLenient.1 state).mp hFound with
    ⟨i, r, part, found, hFirst, hMisfit, hState, hError⟩
  rw [hBuild] at hError
  cases hError
  exact
    ⟨hPos, hMax, hFound,
      ⟨i, r, hFirst, hMisfit, hState ▸ hBuild⟩,
      hStrict.1 "narrow" .write 1 2 rfl⟩

end Description

end MultiTape
