import MultiTape.Proofs.Machine.Examined
import MultiTape.Proofs.Machine.Recoding

/-
  This file shows that only the equality of state names matters.
  If states get other names, no two the same, the machine takes
  the same steps under these names, and the examination of the
  description finds the same things. A name may look like a
  wildcard or a blank: symbols are never mistaken for it.

  Key definitions include:
    * `Recoding.ofNames`
    * `Description.rename`
    * `TraceEntry.rename`
    * `Finding.kind`

  Main statements:
    * `Description.kind_checkStates_rename`
    * `Description.kind_findings_rename`
    * `Description.state_names_are_opaque`
-/

namespace MultiTape

------------------------------------------------------------
-- Other Names
------------------------------------------------------------

/- Giving states other names is a recoding that keeps the order. -/
def Recoding.ofNames
    (f : State → State)
    (hInjective : Function.Injective f) : Recoding where
  state := f
  order items := items
  state_injective := hInjective
  order_map _ _ := rfl
  order_perm _ := List.Perm.refl _
  order_cons _ items := ⟨items, rfl⟩

/- A rule with other names for its states. -/
def Rule.rename
    (f : State → State)
    (r : Rule) : Rule :=
  { r with
    state := f r.state
    nextState := f r.nextState }

/- A description with other names for its states. -/
def Description.rename
    (d : Description)
    (f : State → State) : Description :=
  { d with
    states := d.states.map f
    start := f d.start
    accept := d.accept.map f
    rules := d.rules.map (Rule.rename f) }

/- A configuration with another name for its state. -/
def Configuration.rename
    (f : State → State)
    (c : Configuration) : Configuration :=
  { c with state := f c.state }

/- An entry of a trace with other names for its states. -/
def TraceEntry.rename
    (f : State → State)
    (e : TraceEntry) : TraceEntry where
  step :=
    { e.step with
      state := f e.step.state
      nextState := f e.step.nextState }
  configuration := e.configuration.rename f

------------------------------------------------------------
-- Kinds Of Findings
------------------------------------------------------------

/- What a finding is about. -/
inductive Finding.Kind where
  | inconsistentArity
  | undeclaredStart
  | undeclaredAccept
  | undeclaredStates
  | noStartRule
  | unmatchedSymbols
  deriving DecidableEq, Repr

/- The kind of a finding, without the names that it tells. -/
def Finding.kind : Finding → Finding.Kind
  | inconsistentArity _ => .inconsistentArity
  | undeclaredStart _ => .undeclaredStart
  | undeclaredAccept _ => .undeclaredAccept
  | undeclaredStates _ => .undeclaredStates
  | noStartRule _ => .noStartRule
  | unmatchedSymbols _ => .unmatchedSymbols

namespace Description

/- Two complaints of one kind are both made, or neither is. -/
theorem kind_complain_eq
    {α β : Type}
    {report : List α → Finding}
    {report' : List β → Finding}
    {items : List α}
    {items' : List β}
    (hKind :
      ∀ items items', (report' items').kind = (report items).kind)
    (hNil : items' = [] ↔ items = []) :
    (complain report' items').map Finding.kind =
      (complain report items).map Finding.kind := by
  cases items with
  | nil => rw [hNil.mpr rfl]; rfl
  | cons a items =>
      cases items' with
      | nil => cases hNil.mp rfl
      | cons b items' =>
          exact congrArg some (hKind (a :: items) (b :: items'))

/- The same rule does not fit. -/
theorem kind_checkArity_rename
    (d : Description)
    (f : State → State) :
    (d.rename f).checkArity.map Finding.kind =
      d.checkArity.map Finding.kind := by
  unfold checkArity rename
  rw [List.find?_map, Option.map_map, Option.map_map,
    Option.map_map]
  rfl

/- A state is declared under its other name if it is declared. -/
theorem kind_checkStart_rename
    (d : Description)
    {f : State → State}
    (hInjective : Function.Injective f) :
    (d.rename f).checkStart.map Finding.kind =
      d.checkStart.map Finding.kind := by
  unfold checkStart rename
  simp only [List.mem_map_of_injective hInjective]
  split <;> rfl

/- All states are declared under their other names, or not all are. -/
theorem undeclared_rename_eq_nil_iff
    (d : Description)
    {f : State → State}
    (hInjective : Function.Injective f)
    (states : List State) :
    (d.rename f).undeclared (states.map f) = [] ↔
      d.undeclared states = [] := by
  rw [undeclared_eq_nil_iff, undeclared_eq_nil_iff,
    List.forall_mem_map]
  simp only [rename, List.mem_map_of_injective hInjective]

theorem kind_checkAccept_rename
    (d : Description)
    {f : State → State}
    (hInjective : Function.Injective f) :
    (d.rename f).checkAccept.map Finding.kind =
      d.checkAccept.map Finding.kind :=
  kind_complain_eq (fun _ _ => rfl)
    (d.undeclared_rename_eq_nil_iff hInjective d.accept)

/-
  Undeclared states are told in the order of their names, which
  may be another one, but there are some or there are none.
-/
theorem kind_checkStates_rename
    (d : Description)
    {f : State → State}
    (hInjective : Function.Injective f) :
    (d.rename f).checkStates.map Finding.kind =
      d.checkStates.map Finding.kind := by
  have hStates :
      ((d.rename f).rules.flatMap fun r =>
          [r.state, r.nextState]) =
        (d.rules.flatMap fun r =>
          [r.state, r.nextState]).map f := by
    unfold rename
    rw [List.flatMap_map, List.map_flatMap]
    rfl
  unfold checkStates
  refine kind_complain_eq (fun _ _ => rfl) ?_
  rw [hStates, ascending_eq_nil_iff, ascending_eq_nil_iff]
  exact d.undeclared_rename_eq_nil_iff hInjective _

/- A rule begins at the start state under both names, or none does. -/
theorem kind_checkStartRule_rename
    (d : Description)
    {f : State → State}
    (hInjective : Function.Injective f) :
    (d.rename f).checkStartRule.map Finding.kind =
      d.checkStartRule.map Finding.kind := by
  unfold checkStartRule rename
  simp only [List.mem_map, exists_exists_and_eq_and, Rule.rename,
    hInjective.eq_iff]
  split <;> rfl

/- The symbols that rules write have nothing to do with names. -/
theorem checkWritten_rename
    (d : Description)
    (f : State → State) :
    (d.rename f).checkWritten = d.checkWritten := by
  have hWritten :
      (d.rename f).rules.flatMap Rule.write =
        d.rules.flatMap Rule.write := by
    unfold rename
    rw [List.flatMap_map]
    rfl
  have hWildcard :
      (∃ r ∈ (d.rename f).rules, r.HasWildcard) ↔
        ∃ r ∈ d.rules, r.HasWildcard := by
    simp only [rename, List.mem_map, exists_exists_and_eq_and]
    rfl
  unfold checkWritten
  simp only [hWritten, hWildcard]
  rfl

/-
  The examination finds things of the same kinds, in the same
  order, whatever the states are called.
-/
theorem kind_findings_rename
    (d : Description)
    {f : State → State}
    (hInjective : Function.Injective f) :
    (d.rename f).findings.map Finding.kind =
      d.findings.map Finding.kind := by
  unfold findings
  rw [List.map_filterMap, List.map_filterMap]
  refine List.filterMap_congr ?_
  simp only [List.forall_mem_cons]
  exact
    ⟨d.kind_checkArity_rename f,
      d.kind_checkStart_rename hInjective,
      d.kind_checkAccept_rename hInjective,
      d.kind_checkStates_rename hInjective,
      d.kind_checkStartRule_rename hInjective,
      congrArg _ (d.checkWritten_rename f),
      List.forall_mem_nil _⟩

------------------------------------------------------------
-- Opaque Names
------------------------------------------------------------

/-
  State names are opaque. If states get other names, no two the
  same, then both descriptions cannot be built, for the same
  reason at the same rule, or both machines take the same steps.
  Whatever the limit and however many steps are tried, traces,
  configurations and the ends of runs differ in the names only.
  What is found in the descriptions is of the same kinds.
-/
theorem state_names_are_opaque
    (d : Description)
    {f : State → State}
    (hInjective : Function.Injective f) :
    let ρ := Recoding.ofNames f hInjective
    let d' := d.rename f
    ((∃ place e,
        d.FailsAt place e ∧
          d'.FailsAt place (ρ.error e) ∧
          (Machine.ofDescription d).result = .error e ∧
          (Machine.ofDescription d').result =
            .error (ρ.error e)) ∨
      ∃ m m',
        (Machine.ofDescription d).result = .ok m ∧
          (Machine.ofDescription d').result = .ok m' ∧
          (∀ n,
            (m'.after? n).map Machine.configuration =
              (m.after? n).map fun c =>
                c.configuration.rename f) ∧
          ∀ limit fuel,
            let r := (m.setMaxSteps limit).run fuel
            let r' := (m'.setMaxSteps limit).run fuel
            r'.trace = r.trace.map (TraceEntry.rename f) ∧
              r'.outcome = r.outcome.map ρ.ending ∧
              r'.machine.configuration =
                r.machine.configuration.rename f ∧
              r'.machine.steps = r.machine.steps) ∧
      d'.findings.map Finding.kind =
        d.findings.map Finding.kind := by
  intro ρ d'
  refine ⟨?_, d.kind_findings_rename hInjective⟩
  have hRecoded : ρ.description d = d' := rfl
  rcases ρ.ofDescription_description d with
    ⟨place, e, hFails, hFails'⟩ |
      ⟨m, m', hOk, hOk', hMatches⟩
  · exact
      Or.inl
        ⟨place, e, hFails, hFails', hFails.result_eq,
          hFails'.result_eq⟩
  · refine
      Or.inr
        ⟨m, m', hOk, hOk', hMatches.configuration_after?, ?_⟩
    intro limit fuel
    rcases (hMatches.setMaxSteps limit).run fuel with
      ⟨hOutcome, hTrace, hLast⟩
    exact ⟨hTrace, hOutcome, hLast.configuration, hLast.steps⟩

/-
  A machine that goes from the state with the empty name to the
  undeclared one that is named like a blank.
-/
def nameless : Description :=
  { name := "nameless"
    tapes := 1
    input := ['a']
    states := [""]
    start := ""
    accept := ["_"]
    mode := .overwrite
    rules :=
      [{ state := ""
         read := [Symbol.wildcard]
         nextState := "_"
         write := [Symbol.wildcard]
         moves := [.right] }] }

/- Put a wildcard in front of a name. -/
def asterisk
    (s : State) : State :=
  "*" ++ s

/-
  With a wildcard in front of all names, so that the start state
  is called like one, the machine stops after the same step, and
  the same states are found to be undeclared.
-/
theorem opaque_names_of_nameless :
    Function.Injective asterisk ∧
      (nameless.rename asterisk).findings.map Finding.kind =
        [.undeclaredAccept, .undeclaredStates] ∧
      ∃ m m',
        (Machine.ofDescription nameless).result = .ok m ∧
          (Machine.ofDescription
              (nameless.rename asterisk)).result = .ok m' ∧
          let r := (m.setMaxSteps none).run 9
          let r' := (m'.setMaxSteps none).run 9
          r.outcome =
              some (.ok (.missingTransition ⟨"_", ['_']⟩)) ∧
            r'.outcome =
              some (.ok (.missingTransition ⟨"*_", ['_']⟩)) ∧
            r'.trace =
              r.trace.map (TraceEntry.rename asterisk) := by
  have hInjective : Function.Injective asterisk :=
    fun _ _ hEq => (String.append_right_inj "*").mp hEq
  have hRun :
      ((Machine.ofDescription nameless).result.map fun m =>
          ((m.setMaxSteps none).run 9).outcome) =
        .ok
          (some (.ok (.missingTransition ⟨"_", ['_']⟩))) := by
    decide
  rcases nameless.state_names_are_opaque hInjective with
    ⟨hBuilds, hFindings⟩
  refine ⟨hInjective, ?_, ?_⟩
  · rw [hFindings]
    decide
  · rcases hBuilds with
      ⟨place, e, _hFails, _hFails', hError, _hError'⟩ |
        ⟨m, m', hOk, hOk', _hAfter, hRuns⟩
    · rw [hError] at hRun
      cases hRun
    · rw [hOk] at hRun
      have hOutcome :
          ((m.setMaxSteps none).run 9).outcome =
            some (.ok (.missingTransition ⟨"_", ['_']⟩)) :=
        Except.ok.inj hRun
      rcases hRuns none 9 with
        ⟨hTrace, hOutcome', _hLast, _hSteps⟩
      refine ⟨m, m', hOk, hOk', hOutcome, ?_, hTrace⟩
      rw [hOutcome', hOutcome]
      rfl

end Description

end MultiTape
