import MultiTape.Proofs.Machine.Budget

/-
  This file shows that the trace of a run is the computation,
  without a gap: each entry is the step from the configuration
  of the entry before it, they are numbered in order, the last
  one is where the run stopped, and a blank under the head of
  the control tape is met before the last step only.

  Key definitions include:
    * `Machine.path`
    * `TraceEntry.Follows`

  Main statements:
    * `Machine.run_induction`
    * `Machine.follows_of_advance_eq_ok`
    * `Machine.exists_follows_of_getElem?_trace`
    * `Machine.trace_is_the_computation`
-/

namespace MultiTape

/-
  The entry is a step that a table has an action for, from a
  configuration and with a number, to the configuration that
  the action leads to.
-/
structure TraceEntry.Follows
    (entry : TraceEntry)
    (t : Table)
    (before : Configuration)
    (index : Nat) : Prop where
  index_eq : entry.step.index = index
  state_eq : entry.step.state = before.state
  read_eq : entry.step.read = before.symbols
  nextState_eq :
    entry.step.nextState = entry.configuration.state
  action :
    ∃ a,
      t.lookup entry.step.state entry.step.read = some a ∧
        entry.configuration = before.apply a

namespace Machine

------------------------------------------------------------
-- Runs Step By Step
------------------------------------------------------------

/-
  What holds of runs that take no step or only the last one,
  and is kept by a step in front, holds of all runs.
-/
theorem run_induction
    {P : Machine → Run → Prop}
    (hPaused : ∀ m, P m ⟨m, [], none⟩)
    (hStopped :
      ∀ m e, m.advance = .error e →
        P m ⟨m, [], some (stop e)⟩)
    (hFinished :
      ∀ m next s, m.advance = .ok (next, s) →
        m.configuration.AtBlank →
          P m
            ⟨next, [⟨s, next.configuration⟩],
              some (.ok next.verdict)⟩)
    (hContinued :
      ∀ m next s r, m.advance = .ok (next, s) →
        ¬ m.configuration.AtBlank → P next r →
          P m (r.after ⟨s, next.configuration⟩))
    (m : Machine)
    (fuel : Nat) :
    P m (m.run fuel) := by
  induction fuel generalizing m with
  | zero => exact hPaused m
  | succ fuel ih =>
      rw [run_succ]
      cases hAdvance : m.advance with
      | error e => exact hStopped m e hAdvance
      | ok p =>
          simp only
          split
          · next hBlank =>
              exact hFinished m p.1 p.2 hAdvance hBlank
          · next hBusy =>
              exact
                hContinued m p.1 p.2 _ hAdvance hBusy
                  (ih p.1)

/- The step of a run, with where it leads, is from where it began. -/
theorem follows_of_advance_eq_ok
    {m next : Machine}
    {s : Step}
    (hAdvance : m.advance = .ok (next, s)) :
    TraceEntry.Follows ⟨s, next.configuration⟩ m.table
      m.configuration (m.steps + 1) := by
  have hStep := step_eq_ok_of_advance_eq_ok hAdvance
  rcases step_eq_ok_iff.mp hStep with
    ⟨a, hLookup, rfl, rfl⟩
  have hState : a.nextState = (m.configuration.apply a).state :=
    (Configuration.state_apply m.configuration a).symm
  exact ⟨rfl, rfl, rfl, hState, a, hLookup, rfl⟩

/- A step of a run does not change the table. -/
theorem table_of_advance_eq_ok
    {m next : Machine}
    {s : Step}
    (hAdvance : m.advance = .ok (next, s)) :
    next.table = m.table := by
  have hStep := step_eq_ok_of_advance_eq_ok hAdvance
  rcases step_eq_ok_iff.mp hStep with
    ⟨a, _hLookup, rfl, _hs⟩
  rfl

------------------------------------------------------------
-- The Path Of A Run
------------------------------------------------------------

/- The configurations that a run went through, with the first. -/
def path
    (m : Machine)
    (trace : List TraceEntry) : List Configuration :=
  m.configuration :: trace.map TraceEntry.configuration

/- Each entry follows the configuration before it on the path. -/
theorem exists_follows_of_getElem?_trace
    {m : Machine}
    {fuel i : Nat}
    {entry : TraceEntry}
    (hEntry : (m.run fuel).trace[i]? = some entry) :
    ∃ before,
      (m.path (m.run fuel).trace)[i]? = some before ∧
        entry.Follows m.table before (m.steps + i + 1) := by
  refine
    run_induction
      (P := fun m r =>
        ∀ i entry, r.trace[i]? = some entry →
          ∃ before,
            (m.path r.trace)[i]? = some before ∧
              entry.Follows m.table before (m.steps + i + 1))
      ?_ ?_ ?_ ?_ m fuel i entry hEntry
  · intro m i entry hEntry
    cases hEntry
  · intro m e _hAdvance i entry hEntry
    cases hEntry
  · intro m next s hAdvance _hBlank i entry hEntry
    cases i with
    | zero =>
        cases hEntry
        exact ⟨_, rfl, follows_of_advance_eq_ok hAdvance⟩
    | succ i => cases hEntry
  · intro m next s r hAdvance _hBusy ih i entry hEntry
    cases i with
    | zero =>
        cases hEntry
        exact ⟨_, rfl, follows_of_advance_eq_ok hAdvance⟩
    | succ i =>
        rcases ih i entry hEntry with
          ⟨before, hBefore, hFollows⟩
        have hSteps :=
          (maxSteps_and_steps_of_advance_eq_ok hAdvance).2
        have hIndex :
            next.steps + i + 1 = m.steps + (i + 1) + 1 := by
          omega
        rw [table_of_advance_eq_ok hAdvance, hIndex]
          at hFollows
        exact ⟨before, hBefore, hFollows⟩

/- The path ends where the run stopped. -/
theorem getElem?_path_length_trace
    (m : Machine)
    (fuel : Nat) :
    (m.path (m.run fuel).trace)[(m.run fuel).trace.length]? =
      some (m.run fuel).machine.configuration := by
  refine
    run_induction
      (P := fun m r =>
        (m.path r.trace)[r.trace.length]? =
          some r.machine.configuration)
      ?_ ?_ ?_ ?_ m fuel
  · intro m
    rfl
  · intro m e _hAdvance
    rfl
  · intro m next s _hAdvance _hBlank
    rfl
  · intro m next s r _hAdvance _hBusy ih
    exact ih

/- A blank is met before no other step than the last. -/
theorem eq_length_trace_of_atBlank
    {m : Machine}
    {fuel i : Nat}
    {c : Configuration}
    (hLess : i < (m.run fuel).trace.length)
    (hPath : (m.path (m.run fuel).trace)[i]? = some c)
    (hBlank : c.AtBlank) :
    i + 1 = (m.run fuel).trace.length := by
  refine
    run_induction
      (P := fun m r =>
        ∀ i c, i < r.trace.length →
          (m.path r.trace)[i]? = some c → c.AtBlank →
            i + 1 = r.trace.length)
      ?_ ?_ ?_ ?_ m fuel i c hLess hPath hBlank
  · intro m i c hLess
    cases hLess
  · intro m e _hAdvance i c hLess
    cases hLess
  · intro m next s _hAdvance _hHere i c hLess _hPath _hBlank
    have hZero : i = 0 := Nat.lt_one_iff.mp hLess
    rw [hZero]
    rfl
  · intro m next s r _hAdvance hBusy ih i c hLess hPath hBlank
    cases i with
    | zero =>
        cases hPath
        exact absurd hBlank hBusy
    | succ i =>
        have hRest :=
          ih i c (Nat.lt_of_succ_lt_succ hLess) hPath hBlank
        exact congrArg (· + 1) hRest

/- A run accepts or rejects only after a step from a blank. -/
theorem exists_atBlank_of_outcome_eq_verdict
    {m : Machine}
    {fuel : Nat}
    {v : Verdict}
    (hOutcome : (m.run fuel).outcome = some (.ok v))
    (hVerdict : v = .accept ∨ v = .reject) :
    ∃ i c,
      i + 1 = (m.run fuel).trace.length ∧
        (m.path (m.run fuel).trace)[i]? = some c ∧
        c.AtBlank := by
  refine
    run_induction
      (P := fun m r =>
        r.outcome = some (.ok v) →
          ∃ i c,
            i + 1 = r.trace.length ∧
              (m.path r.trace)[i]? = some c ∧ c.AtBlank)
      ?_ ?_ ?_ ?_ m fuel hOutcome
  · intro m hNone
    cases hNone
  · intro m e _hAdvance hStop
    rcases stop_eq_ok_iff.mp (Option.some.inj hStop) with
      ⟨key, _hError, rfl⟩
    rcases hVerdict with hAccept | hReject
    · cases hAccept
    · cases hReject
  · intro m next s _hAdvance hBlank _hOk
    exact ⟨0, m.configuration, rfl, rfl, hBlank⟩
  · intro m next s r _hAdvance _hBusy ih hOk
    rcases ih hOk with ⟨i, c, hLength, hPath, hBlank⟩
    exact
      ⟨i + 1, c, congrArg (· + 1) hLength, hPath, hBlank⟩

------------------------------------------------------------
-- The Trace Of A Run
------------------------------------------------------------

/-
  The trace of a run is the computation, whether the run came
  to a verdict, was cut short or is not over. The machine has
  taken as many steps more as there are entries, and nothing
  else of it changed but the configuration. Each entry follows
  the configuration before it, with the next number; the last
  configuration is the machine's. Of the configurations that a
  step was taken from only the last may have the control tape's
  head on a blank, and it does if the run accepts or rejects.
-/
theorem trace_is_the_computation
    (m : Machine)
    (fuel : Nat) :
    let r := m.run fuel
    r.machine =
        { m with
          configuration := r.machine.configuration
          steps := m.steps + r.trace.length } ∧
      (∀ i (entry : TraceEntry),
        r.trace[i]? = some entry →
          ∃ before,
            (m.path r.trace)[i]? = some before ∧
              entry.Follows m.table before
                (m.steps + i + 1)) ∧
      (m.path r.trace)[r.trace.length]? =
        some r.machine.configuration ∧
      (∀ i c,
        i < r.trace.length →
          (m.path r.trace)[i]? = some c →
            c.AtBlank → i + 1 = r.trace.length) ∧
      ∀ v,
        r.outcome = some (.ok v) →
          v = .accept ∨ v = .reject →
            ∃ i c,
              i + 1 = r.trace.length ∧
                (m.path r.trace)[i]? = some c ∧
                c.AtBlank := by
  intro r
  refine
    ⟨eq_of_after?_eq_some (after?_length_trace_run m fuel),
      ?_, getElem?_path_length_trace m fuel, ?_, ?_⟩
  · intro i entry hEntry
    exact exists_follows_of_getElem?_trace hEntry
  · intro i c hLess hPath hBlank
    exact eq_length_trace_of_atBlank hLess hPath hBlank
  · intro v hOutcome hVerdict
    exact
      exists_atBlank_of_outcome_eq_verdict hOutcome hVerdict

/- The copying machine after its first step. -/
def copierAfterStep : Machine :=
  copier.perform .step

/-
  The run of the copying machine after its first step takes two
  more, the second of them from the blank after the input.
-/
theorem trace_of_copierAfterStep :
    (copierAfterStep.run 5).outcome = some (.ok .accept) ∧
      (copierAfterStep.run 5).trace.length = 2 ∧
      (copierAfterStep.run 5).machine.steps = 3 ∧
      ∃ entry before,
        (copierAfterStep.run 5).trace[1]? = some entry ∧
          before.AtBlank ∧
          entry.Follows copierAfterStep.table before 3 := by
  have hOutcome :
      (copierAfterStep.run 5).outcome = some (.ok .accept) :=
    rfl
  have hLength : (copierAfterStep.run 5).trace.length = 2 :=
    rfl
  rcases trace_is_the_computation copierAfterStep 5 with
    ⟨hMachine, hFollows, _hLast, _hBlank, hVerdict⟩
  rcases hVerdict _ hOutcome (Or.inl rfl) with
    ⟨i, c, hi, hPath, hBlank⟩
  rw [hLength] at hi
  cases hi
  have hEntry :
      (copierAfterStep.run 5).trace[1]? =
        some (copierAfterStep.run 5).trace[1] :=
    List.getElem?_eq_getElem _
  rcases hFollows 1 _ hEntry with
    ⟨before, hBefore, hStep⟩
  have hSame : before = c :=
    Option.some.inj (hBefore.symm.trans hPath)
  rw [hSame] at hStep
  refine
    ⟨hOutcome, hLength, ?_, _, c, hEntry, hBlank, hStep⟩
  rw [hMachine, hLength]
  rfl

end Machine

end MultiTape
