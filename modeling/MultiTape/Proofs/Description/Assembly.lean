import MultiTape.Machine.Build
import MultiTape.Proofs.Table.RuleLists

/-
  This file takes the building of a machine apart: the rules of
  a description go into a table, and the machine is made of the
  description and that table. So a build fails either for the
  number of tapes or at a rule, the first that its table
  refuses.

  Key definitions include:
    * `Description.HasTapes`
    * `Description.emptyTable`
    * `Description.assemble`
    * `Description.FailsAt`

  Main statements:
    * `Machine.result_registerAll_eq`
    * `Description.result_ofDescription_eq_ok_iff`
    * `Description.result_ofDescription_eq_error_iff`
-/

namespace MultiTape

/- Adding rules to a machine adds them to its table. -/
theorem Machine.result_registerAll_eq
    (m : Machine)
    (rules : List Rule) :
    (m.registerAll rules).result =
      (m.table.registerAll rules).map fun p =>
        { m with table := p.1 } := by
  induction rules generalizing m with
  | nil => rfl
  | cons r rules ih =>
      unfold registerAll register Table.registerAll
      cases m.table.register r with
      | error e => rfl
      | ok p =>
          have hRest := ih { m with table := p.1 }
          simp only [Except.map, Build.after] at hRest ⊢
          rw [hRest]
          cases p.1.registerAll rules with
          | error e => rfl
          | ok q => rfl

namespace Description

/- The number of tapes is one that a machine can have. -/
def HasTapes
    (d : Description) : Prop :=
  1 ≤ d.tapes ∧ d.tapes ≤ maxTapes

instance
    (d : Description) :
    Decidable d.HasTapes :=
  inferInstanceAs (Decidable (_ ∧ _))

/- The table of a description before any of its rules. -/
def emptyTable
    (d : Description) : Table :=
  (Table.ofSymbols d.tapes d.input).setMode d.mode

/- The machine of a description in the beginning, with a table. -/
def assemble
    (d : Description)
    (t : Table) : Machine where
  name := d.name
  input := d.input
  states := d.states
  start := d.start
  accept := d.accept
  table := t
  maxSteps := none
  configuration :=
    Configuration.initial d.tapes d.start d.input
  steps := 0

/-
  How the build of a description fails, with the number of the
  rule at which it does, counted from zero, if it is at a rule.
-/
inductive FailsAt
    (d : Description) : Option Nat → Error → Prop where
  | count
      (hTapes : ¬ d.HasTapes) :
      FailsAt d none (.tapeCount d.tapes)
  | rule
      {i : Nat}
      {e : Error}
      (hTapes : d.HasTapes)
      (hRefuses : d.emptyTable.RefusesAt d.rules i e) :
      FailsAt d (some i) e

/- The build of a description, by way of its table. -/
theorem result_ofDescription_eq
    (d : Description) :
    (Machine.ofDescription d).result =
      if d.HasTapes then
        (d.emptyTable.registerAll d.rules).map fun p =>
          d.assemble p.1
      else
        .error (.tapeCount d.tapes) := by
  unfold Machine.ofDescription Machine.create
  by_cases hTapes : d.HasTapes
  · have hCount : ¬(d.tapes = 0 ∨ d.tapes > maxTapes) := by
      rcases hTapes with ⟨hPos, hMax⟩
      omega
    rw [if_neg hCount, if_pos hTapes]
    exact Machine.result_registerAll_eq _ d.rules
  · have hCount : d.tapes = 0 ∨ d.tapes > maxTapes := by
      unfold HasTapes at hTapes
      omega
    rw [if_pos hCount, if_neg hTapes]

/- A build succeeds if the table of its machine comes about. -/
theorem result_ofDescription_eq_ok_iff
    {d : Description}
    {m : Machine} :
    (Machine.ofDescription d).result = .ok m ↔
      d.HasTapes ∧
        ∃ t counts,
          d.emptyTable.registerAll d.rules = .ok (t, counts) ∧
            m = d.assemble t := by
  rw [result_ofDescription_eq]
  by_cases hTapes : d.HasTapes
  · cases d.emptyTable.registerAll d.rules with
    | error e => simp [hTapes, Except.map]
    | ok p => simp [hTapes, Except.map, @eq_comm _ m, Prod.ext_iff]
  · simp [hTapes]

/- Outside of strict mode a build succeeds if all rules fit. -/
theorem exists_result_ofDescription_eq_ok
    {d : Description}
    (hTapes : d.HasTapes)
    (hMode : d.mode = .overwrite)
    (hFits : ∀ r ∈ d.rules, r.Fits d.tapes) :
    ∃ m, (Machine.ofDescription d).result = .ok m := by
  rcases Table.exists_registerAll_eq_ok
      (t := d.emptyTable) hMode hFits with
    ⟨t, counts, hAll⟩
  exact
    ⟨_, result_ofDescription_eq_ok_iff.mpr
      ⟨hTapes, t, counts, hAll, rfl⟩⟩

/- A build fails for the number of tapes or at a rule. -/
theorem result_ofDescription_eq_error_iff
    {d : Description}
    {e : Error} :
    (Machine.ofDescription d).result = .error e ↔
      ∃ place, d.FailsAt place e := by
  rw [result_ofDescription_eq]
  by_cases hTapes : d.HasTapes
  · rw [if_pos hTapes]
    constructor
    · intro hError
      cases hTable : d.emptyTable.registerAll d.rules with
      | ok p =>
          rw [hTable] at hError
          cases hError
      | error e' =>
          rw [hTable] at hError
          cases hError
          rcases Table.registerAll_eq_error_iff.mp hTable with
            ⟨i, hRefuses⟩
          exact ⟨some i, .rule hTapes hRefuses⟩
    · rintro ⟨place, hFails⟩
      cases hFails with
      | count hNot => exact absurd hTapes hNot
      | rule _hTapes hRefuses =>
          rw [Table.registerAll_eq_error_iff.mpr
            ⟨_, hRefuses⟩]
          rfl
  · rw [if_neg hTapes]
    constructor
    · intro hError
      cases hError
      exact ⟨none, .count hTapes⟩
    · rintro ⟨place, hFails⟩
      cases hFails with
      | count _hTapes => rfl
      | rule hHas _hRefuses => exact absurd hHas hTapes

/- The build ends with the error with which it fails. -/
theorem FailsAt.result_eq
    {d : Description}
    {place : Option Nat}
    {e : Error}
    (hFails : d.FailsAt place e) :
    (Machine.ofDescription d).result = .error e :=
  result_ofDescription_eq_error_iff.mpr ⟨place, hFails⟩

end Description

end MultiTape
