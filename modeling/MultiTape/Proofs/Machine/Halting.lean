import MultiTape.Proofs.Machine.Reachability

/-
  This file says exactly when a run comes to an end, with which
  result, and where it leaves the machine. A run is described
  twice: by rules that take one step each, and by the sequence
  of machines that single steps lead to.

  Key definitions include:
    * `Machine.Halts`
    * `Machine.Returns`
    * `Machine.BusyBefore`
    * `Machine.Completes`
    * `Machine.Sticks`

  Main statements:
    * `Machine.halts_iff_exists_run`
    * `Machine.Halts.unique`
    * `Machine.halts_of_maxSteps_eq_some`
    * `Machine.returns_exactly_when`
-/

namespace MultiTape

namespace Machine

------------------------------------------------------------
-- The Limit On Steps
------------------------------------------------------------

/- The limit is not reached while there are fewer steps. -/
theorem spent?_eq_none_iff
    {m : Machine} :
    m.spent? = none ↔
      ∀ limit, m.maxSteps = some limit → m.steps < limit := by
  unfold spent?
  cases m.maxSteps <;> simp

/- The limit is reached when there are as many steps. -/
theorem spent?_eq_some_iff
    {m : Machine}
    {limit : Nat} :
    m.spent? = some limit ↔
      m.maxSteps = some limit ∧ limit ≤ m.steps := by
  unfold spent?
  simp [Option.filter_eq_some_iff]

/- A run takes the steps that the limit allows. -/
theorem advance_eq_ok_iff
    {m : Machine}
    {p : Machine × Step} :
    m.advance = .ok p ↔
      m.spent? = none ∧ m.step = .ok p := by
  unfold advance
  cases m.spent? <;> simp

/- A run takes no step at the limit or without an action. -/
theorem advance_eq_error_iff
    {m : Machine}
    {e : Error} :
    m.advance = .error e ↔
      (∃ limit,
        m.spent? = some limit ∧ e = .stepLimit limit) ∨
      (m.spent? = none ∧ m.step = .error e) := by
  unfold advance
  cases m.spent? <;> simp [eq_comm]

------------------------------------------------------------
-- Rules Of Runs
------------------------------------------------------------

/-
  The run of a machine ends: it cannot take a step, or it takes
  its last step from a blank, or it takes another step and ends
  later.
-/
inductive Halts :
    Machine → List TraceEntry → Except Error Verdict →
      Machine → Prop where
  | stopped
      {m : Machine}
      {e : Error}
      (hAdvance : m.advance = .error e) :
      Halts m [] (stop e) m
  | finished
      {m next : Machine}
      {s : Step}
      (hAdvance : m.advance = .ok (next, s))
      (hBlank : m.configuration.AtBlank) :
      Halts m [⟨s, next.configuration⟩]
        (.ok next.verdict) next
  | continued
      {m next last : Machine}
      {s : Step}
      {trace : List TraceEntry}
      {result : Except Error Verdict}
      (hAdvance : m.advance = .ok (next, s))
      (hBusy : ¬ m.configuration.AtBlank)
      (hRest : Halts next trace result last) :
      Halts m (⟨s, next.configuration⟩ :: trace) result last

/- The rules describe the runs that are given enough steps. -/
theorem halts_iff_exists_run
    {m last : Machine}
    {trace : List TraceEntry}
    {result : Except Error Verdict} :
    Halts m trace result last ↔
      ∃ fuel, m.run fuel = ⟨last, trace, some result⟩ := by
  constructor
  · intro hHalts
    induction hHalts with
    | stopped hAdvance =>
        refine ⟨1, ?_⟩
        rw [run_succ, hAdvance]
    | finished hAdvance hBlank =>
        refine ⟨1, ?_⟩
        rw [run_succ, hAdvance]
        exact if_pos hBlank
    | continued hAdvance hBusy _hRest ih =>
        rcases ih with ⟨fuel, hRun⟩
        refine ⟨fuel + 1, ?_⟩
        rw [run_succ, hAdvance]
        simp only [if_neg hBusy, hRun, Run.after]
  · intro hParts
    rcases hParts with ⟨fuel, hRun⟩
    induction fuel generalizing m trace with
    | zero => cases hRun
    | succ fuel ih =>
        rw [run_succ] at hRun
        cases hAdvance : m.advance with
        | error e =>
            rw [hAdvance] at hRun
            cases hRun
            exact .stopped hAdvance
        | ok p =>
            rw [hAdvance] at hRun
            simp only at hRun
            split at hRun
            · next hBlank =>
                cases hRun
                exact .finished hAdvance hBlank
            · next hBusy =>
                cases hRest : p.1.run fuel with
                | mk machine rest outcome =>
                    rw [hRest] at hRun
                    cases hRun
                    exact
                      .continued hAdvance hBusy (ih hRest)

/- A run ends in one way only. -/
theorem Halts.unique
    {m last last' : Machine}
    {trace trace' : List TraceEntry}
    {result result' : Except Error Verdict}
    (hHalts : Halts m trace result last)
    (hOther : Halts m trace' result' last') :
    trace = trace' ∧ result = result' ∧ last = last' := by
  induction hHalts generalizing trace' with
  | stopped hAdvance =>
      cases hOther with
      | stopped hOther =>
          rw [hAdvance] at hOther
          cases hOther
          exact ⟨rfl, rfl, rfl⟩
      | finished hOther _hBlank =>
          rw [hAdvance] at hOther
          cases hOther
      | continued hOther _hBusy _hRest =>
          rw [hAdvance] at hOther
          cases hOther
  | finished hAdvance hBlank =>
      cases hOther with
      | stopped hOther =>
          rw [hAdvance] at hOther
          cases hOther
      | finished hOther _hBlank =>
          rw [hAdvance] at hOther
          cases hOther
          exact ⟨rfl, rfl, rfl⟩
      | continued _hOther hBusy _hRest =>
          exact absurd hBlank hBusy
  | continued hAdvance hBusy _hRest ih =>
      cases hOther with
      | stopped hOther =>
          rw [hAdvance] at hOther
          cases hOther
      | finished _hOther hBlank =>
          exact absurd hBlank hBusy
      | continued hOther _hBusy hRest =>
          rw [hAdvance] at hOther
          cases hOther
          rcases ih hRest with ⟨rfl, rfl, rfl⟩
          exact ⟨rfl, rfl, rfl⟩

/- A step keeps the limit and is counted. -/
theorem maxSteps_and_steps_of_advance_eq_ok
    {m next : Machine}
    {s : Step}
    (hAdvance : m.advance = .ok (next, s)) :
    next.maxSteps = m.maxSteps ∧
      next.steps = m.steps + 1 := by
  have hStep := (advance_eq_ok_iff.mp hAdvance).2
  rcases step_eq_ok_iff.mp hStep with
    ⟨a, _hLookup, rfl, _hs⟩
  exact ⟨rfl, rfl⟩

/- With a limit every run ends. -/
theorem halts_of_maxSteps_eq_some
    {m : Machine}
    {limit : Nat}
    (hLimit : m.maxSteps = some limit) :
    ∃ trace result last, Halts m trace result last := by
  induction hLeft : limit - m.steps generalizing m with
  | zero =>
      have hSpent : m.spent? = some limit :=
        spent?_eq_some_iff.mpr ⟨hLimit, by omega⟩
      have hAdvance : m.advance = .error (.stepLimit limit) :=
        advance_eq_error_iff.mpr
          (Or.inl ⟨limit, hSpent, rfl⟩)
      exact ⟨_, _, _, .stopped hAdvance⟩
  | succ left ih =>
      cases hAdvance : m.advance with
      | error e => exact ⟨_, _, _, .stopped hAdvance⟩
      | ok p =>
          by_cases hBlank : m.configuration.AtBlank
          · exact ⟨_, _, _, .finished hAdvance hBlank⟩
          · rcases maxSteps_and_steps_of_advance_eq_ok
                hAdvance with
              ⟨hMax, hSteps⟩
            rcases ih (hMax.trans hLimit) (by omega) with
              ⟨trace, result, last, hRest⟩
            exact
              ⟨_, _, _, .continued hAdvance hBlank hRest⟩

------------------------------------------------------------
-- Sequences Of Machines
------------------------------------------------------------

/- No machine before this number of steps is at a blank. -/
def BusyBefore
    (m : Machine)
    (n : Nat) : Prop :=
  ∀ i < n, ∀ c, m.after? i = some c →
    ¬ c.configuration.AtBlank

/-
  The first blank is met after a number of steps, one more step
  can be taken from there, and the limit allows it.
-/
structure Completes
    (m : Machine)
    (n : Nat)
    (last : Machine) : Prop where
  busy : m.BusyBefore n
  blank :
    ∃ c, m.after? n = some c ∧ c.configuration.AtBlank
  reached : m.after? (n + 1) = some last
  limit :
    ∀ limit, m.maxSteps = some limit →
      m.steps + n + 1 ≤ limit

/-
  No action is found after a number of steps, a blank is not
  met before, and the limit would allow another step.
-/
structure Sticks
    (m : Machine)
    (n : Nat)
    (last : Machine) : Prop where
  busy : m.BusyBefore n
  reached : m.after? n = some last
  missing :
    last.table.lookup last.state last.symbols = none
  limit :
    ∀ limit, m.maxSteps = some limit → m.steps + n < limit

/- What is busy for one more step takes a step from a symbol. -/
theorem busyBefore_succ_iff
    {m next : Machine}
    {s : Step}
    {n : Nat}
    (hStep : m.step = .ok (next, s)) :
    m.BusyBefore (n + 1) ↔
      ¬ m.configuration.AtBlank ∧ next.BusyBefore n := by
  constructor
  · intro hBusy
    refine ⟨hBusy 0 (Nat.succ_pos n) m rfl, ?_⟩
    intro i hLess c hAfter
    apply hBusy (i + 1) (Nat.succ_lt_succ hLess) c
    rw [after?_succ_of_step_eq_ok hStep]
    exact hAfter
  · intro hParts i hLess c hAfter
    rcases hParts with ⟨hHere, hBusy⟩
    cases i with
    | zero =>
        cases hAfter
        exact hHere
    | succ i =>
        rw [after?_succ_of_step_eq_ok hStep] at hAfter
        exact hBusy i (Nat.lt_of_succ_lt_succ hLess) c hAfter

/-
  A run takes a number of steps, each from a symbol and within
  the limit, and does not end before.
-/
structure Continues
    (m : Machine)
    (n : Nat)
    (c : Machine) : Prop where
  busy : m.BusyBefore n
  reached : m.after? n = some c
  limit :
    ∀ limit, m.maxSteps = some limit →
      m.steps + n ≤ max limit m.steps

/- A run is where it begins. -/
theorem continues_zero_iff
    {m c : Machine} :
    m.Continues 0 c ↔ c = m := by
  constructor
  · intro hContinues
    exact (Option.some.inj hContinues.reached).symm
  · rintro rfl
    refine ⟨?_, rfl, ?_⟩
    · intro i hLess
      exact absurd hLess (Nat.not_lt_zero i)
    · intro limit _hLimit
      exact Nat.le_max_right limit _

/- A run that continues takes a step and continues from there. -/
theorem continues_succ_iff
    {m c : Machine}
    {n : Nat} :
    m.Continues (n + 1) c ↔
      ¬ m.configuration.AtBlank ∧
        ∃ next s,
          m.advance = .ok (next, s) ∧
            next.Continues n c := by
  constructor
  · intro hContinues
    rcases after?_succ_eq_some_iff.mp hContinues.reached with
      ⟨next, s, hStep, hRest⟩
    have hSpent : m.spent? = none := by
      apply spent?_eq_none_iff.mpr
      intro limit hLimit
      have hBound := hContinues.limit limit hLimit
      omega
    have hAdvance : m.advance = .ok (next, s) :=
      advance_eq_ok_iff.mpr ⟨hSpent, hStep⟩
    rcases maxSteps_and_steps_of_advance_eq_ok hAdvance with
      ⟨hMax, hSteps⟩
    rcases (busyBefore_succ_iff hStep).mp hContinues.busy with
      ⟨hHere, hBusy⟩
    refine ⟨hHere, next, s, hAdvance, hBusy, hRest, ?_⟩
    intro limit hLimit
    have hBound :=
      hContinues.limit limit (hMax.symm.trans hLimit)
    omega
  · intro hParts
    rcases hParts with ⟨hHere, next, s, hAdvance, hContinues⟩
    rcases advance_eq_ok_iff.mp hAdvance with
      ⟨hSpent, hStep⟩
    rcases maxSteps_and_steps_of_advance_eq_ok hAdvance with
      ⟨hMax, hSteps⟩
    refine ⟨?_, ?_, ?_⟩
    · exact
        (busyBefore_succ_iff hStep).mpr
          ⟨hHere, hContinues.busy⟩
    · rw [after?_succ_of_step_eq_ok hStep]
      exact hContinues.reached
    · intro limit hLimit
      have hBound :=
        hContinues.limit limit (hMax.trans hLimit)
      have hLess := spent?_eq_none_iff.mp hSpent limit hLimit
      omega

/- How the run of a machine ends that does not continue. -/
inductive Ends
    (c : Machine) : Except Error Verdict → Machine → Prop where
  | stopped
      {e : Error}
      (hAdvance : c.advance = .error e) :
      Ends c (stop e) c
  | finished
      {last : Machine}
      {s : Step}
      (hAdvance : c.advance = .ok (last, s))
      (hBlank : c.configuration.AtBlank) :
      Ends c (.ok last.verdict) last

/- A run continues for a while and then ends. -/
theorem exists_halts_iff_continues
    {m last : Machine}
    {result : Except Error Verdict} :
    (∃ trace, Halts m trace result last) ↔
      ∃ n c, m.Continues n c ∧ c.Ends result last := by
  constructor
  · intro hParts
    rcases hParts with ⟨trace, hHalts⟩
    induction hHalts with
    | stopped hAdvance =>
        exact
          ⟨0, _, continues_zero_iff.mpr rfl,
            .stopped hAdvance⟩
    | finished hAdvance hBlank =>
        exact
          ⟨0, _, continues_zero_iff.mpr rfl,
            .finished hAdvance hBlank⟩
    | continued hAdvance hBusy _hRest ih =>
        rcases ih with ⟨n, c, hContinues, hEnds⟩
        exact
          ⟨n + 1, c,
            continues_succ_iff.mpr
              ⟨hBusy, _, _, hAdvance, hContinues⟩,
            hEnds⟩
  · intro hParts
    rcases hParts with ⟨n, c, hContinues, hEnds⟩
    induction n generalizing m with
    | zero =>
        rcases continues_zero_iff.mp hContinues with rfl
        cases hEnds with
        | stopped hAdvance => exact ⟨_, .stopped hAdvance⟩
        | finished hAdvance hBlank =>
            exact ⟨_, .finished hAdvance hBlank⟩
    | succ n ih =>
        rcases continues_succ_iff.mp hContinues with
          ⟨hBusy, next, s, hAdvance, hRest⟩
        rcases ih hRest with ⟨trace, hHalts⟩
        exact ⟨_, .continued hAdvance hBusy hHalts⟩

/- A run ends with the verdict of its last state from a blank. -/
theorem ends_verdict_iff
    {c last : Machine}
    {v : Verdict}
    (hVerdict : v = .accept ∨ v = .reject) :
    c.Ends (.ok v) last ↔
      c.configuration.AtBlank ∧
        (∃ s, c.advance = .ok (last, s)) ∧
        v = last.verdict := by
  constructor
  · intro hEnds
    generalize hResult : Except.ok v = result at hEnds
    cases hEnds with
    | stopped hAdvance =>
        unfold stop at hResult
        split at hResult
        · rcases hVerdict with rfl | rfl <;> cases hResult
        · cases hResult
    | @finished last s hAdvance hBlank =>
        cases hResult
        exact ⟨hBlank, ⟨s, hAdvance⟩, rfl⟩
  · intro hParts
    rcases hParts with ⟨hBlank, ⟨s, hAdvance⟩, rfl⟩
    exact .finished hAdvance hBlank

/- A run ends with a missing action where there is none. -/
theorem ends_missingTransition_iff
    {c last : Machine}
    {key : Key} :
    c.Ends (.ok (.missingTransition key)) last ↔
      last = c ∧
        key = c.configuration.key ∧
        c.advance = .error (.noTransition key) := by
  constructor
  · intro hEnds
    generalize hResult :
      Except.ok (Verdict.missingTransition key) = result
        at hEnds
    cases hEnds with
    | @stopped e hAdvance =>
        unfold stop at hResult
        split at hResult
        · cases hResult
          refine ⟨rfl, ?_, hAdvance⟩
          rcases advance_eq_error_iff.mp hAdvance with
            ⟨limit, _hSpent, hError⟩ | ⟨_hSpent, hStep⟩
          · cases hError
          · have hError := (step_eq_error_iff.mp hStep).2
            exact Error.noTransition.inj hError
        · cases hResult
    | @finished last s _hAdvance _hBlank =>
        unfold verdict at hResult
        split at hResult <;> cases hResult
  · intro hParts
    rcases hParts with ⟨rfl, _hKey, hAdvance⟩
    exact .stopped hAdvance

/- A run ends with an error at its limit only. -/
theorem ends_error_iff
    {c last : Machine}
    {e : Error} :
    c.Ends (.error e) last ↔
      last = c ∧
        ∃ limit,
          c.spent? = some limit ∧ e = .stepLimit limit := by
  constructor
  · intro hEnds
    generalize hResult :
      (Except.error e : Except Error Verdict) = result
        at hEnds
    cases hEnds with
    | @stopped e' hAdvance =>
        rcases advance_eq_error_iff.mp hAdvance with
          ⟨limit, hSpent, rfl⟩ | ⟨_hSpent, hStep⟩
        · cases hResult
          exact ⟨rfl, limit, hSpent, rfl⟩
        · rcases step_eq_error_iff.mp hStep with ⟨_, rfl⟩
          cases hResult
    | finished _hAdvance _hBlank => cases hResult
  · intro hParts
    rcases hParts with ⟨rfl, limit, hSpent, rfl⟩
    have hAdvance :=
      advance_eq_error_iff.mpr (Or.inl ⟨limit, hSpent, rfl⟩)
    exact .stopped hAdvance

/- What stays the same, and what is counted, while a run continues. -/
theorem Continues.eq
    {m c : Machine}
    {n : Nat}
    (hContinues : m.Continues n c) :
    c.maxSteps = m.maxSteps ∧
      c.accept = m.accept ∧
      c.steps = m.steps + n := by
  have hEq := eq_of_after?_eq_some hContinues.reached
  rw [hEq]
  exact ⟨rfl, rfl, rfl⟩

/- A run completes when it continues to a blank and advances. -/
theorem completes_iff_continues
    {m last : Machine}
    {n : Nat} :
    m.Completes n last ↔
      ∃ c, m.Continues n c ∧
        c.configuration.AtBlank ∧
        ∃ s, c.advance = .ok (last, s) := by
  constructor
  · intro hCompletes
    rcases hCompletes.blank with ⟨c, hReached, hBlank⟩
    have hContinues : m.Continues n c := by
      refine ⟨hCompletes.busy, hReached, ?_⟩
      intro limit hLimit
      have hBound := hCompletes.limit limit hLimit
      omega
    rcases hContinues.eq with ⟨hMax, _hAccept, hSteps⟩
    have hLast := hCompletes.reached
    rw [after?_add_of_after?_eq_some hReached] at hLast
    rcases after?_succ_eq_some_iff.mp hLast with
      ⟨next, s, hStep, hNext⟩
    cases hNext
    have hSpent : c.spent? = none := by
      apply spent?_eq_none_iff.mpr
      intro limit hLimit
      have hBound :=
        hCompletes.limit limit (hMax.symm.trans hLimit)
      omega
    exact
      ⟨c, hContinues, hBlank, s,
        advance_eq_ok_iff.mpr ⟨hSpent, hStep⟩⟩
  · intro hParts
    rcases hParts with ⟨c, hContinues, hBlank, s, hAdvance⟩
    rcases hContinues.eq with ⟨hMax, _hAccept, hSteps⟩
    rcases advance_eq_ok_iff.mp hAdvance with
      ⟨hSpent, hStep⟩
    refine
      ⟨hContinues.busy, ⟨c, hContinues.reached, hBlank⟩,
        ?_, ?_⟩
    · rw [after?_add_of_after?_eq_some hContinues.reached]
      exact after?_succ_of_step_eq_ok hStep 0
    · intro limit hLimit
      have hLess :=
        spent?_eq_none_iff.mp hSpent limit
          (hMax.trans hLimit)
      omega

/- A run sticks when it continues to where no action is found. -/
theorem sticks_iff_continues
    {m last : Machine}
    {n : Nat} :
    m.Sticks n last ↔
      m.Continues n last ∧
        last.advance =
          .error (.noTransition last.configuration.key) := by
  constructor
  · intro hSticks
    have hContinues : m.Continues n last := by
      refine ⟨hSticks.busy, hSticks.reached, ?_⟩
      intro limit hLimit
      have hBound := hSticks.limit limit hLimit
      omega
    rcases hContinues.eq with ⟨hMax, _hAccept, hSteps⟩
    have hSpent : last.spent? = none := by
      apply spent?_eq_none_iff.mpr
      intro limit hLimit
      rw [hSteps]
      exact hSticks.limit limit (hMax.symm.trans hLimit)
    have hStep :=
      step_eq_error_iff.mpr ⟨hSticks.missing, rfl⟩
    exact
      ⟨hContinues,
        advance_eq_error_iff.mpr (Or.inr ⟨hSpent, hStep⟩)⟩
  · intro hParts
    rcases hParts with ⟨hContinues, hAdvance⟩
    rcases hContinues.eq with ⟨hMax, _hAccept, hSteps⟩
    rcases advance_eq_error_iff.mp hAdvance with
      ⟨limit, _hSpent, hError⟩ | ⟨hSpent, hStep⟩
    · cases hError
    · refine
        ⟨hContinues.busy, hContinues.reached,
          (step_eq_error_iff.mp hStep).1, ?_⟩
      intro limit hLimit
      rw [← hSteps]
      exact
        spent?_eq_none_iff.mp hSpent limit
          (hMax.trans hLimit)

------------------------------------------------------------
-- Results Of Runs
------------------------------------------------------------

/- The run comes to an end with a result and leaves a machine. -/
def Returns
    (m : Machine)
    (result : Except Error Verdict)
    (last : Machine) : Prop :=
  ∃ fuel,
    (m.run fuel).outcome = some result ∧
      (m.run fuel).machine = last

/- A run returns when it ends by the rules. -/
theorem returns_iff_exists_halts
    {m last : Machine}
    {result : Except Error Verdict} :
    m.Returns result last ↔
      ∃ trace, Halts m trace result last := by
  constructor
  · intro hParts
    rcases hParts with ⟨fuel, hOutcome, hMachine⟩
    refine ⟨(m.run fuel).trace, ?_⟩
    apply halts_iff_exists_run.mpr
    refine ⟨fuel, ?_⟩
    rw [← hOutcome, ← hMachine]
  · intro hParts
    rcases hParts with ⟨trace, hHalts⟩
    rcases halts_iff_exists_run.mp hHalts with ⟨fuel, hRun⟩
    refine ⟨fuel, ?_, ?_⟩
    · rw [hRun]
    · rw [hRun]

/- A run returns in one way only. -/
theorem Returns.unique
    {m last last' : Machine}
    {result result' : Except Error Verdict}
    (hReturns : m.Returns result last)
    (hOther : m.Returns result' last') :
    result = result' ∧ last = last' := by
  rcases returns_iff_exists_halts.mp hReturns with
    ⟨trace, hHalts⟩
  rcases returns_iff_exists_halts.mp hOther with
    ⟨trace', hHalts'⟩
  exact (hHalts.unique hHalts').2

/- A run returns when it continues and then ends. -/
theorem returns_iff_continues
    {m last : Machine}
    {result : Except Error Verdict} :
    m.Returns result last ↔
      ∃ n c, m.Continues n c ∧ c.Ends result last :=
  returns_iff_exists_halts.trans exists_halts_iff_continues

/- The verdict is to accept exactly in the accepting states. -/
theorem eq_verdict_iff
    {m : Machine}
    {v : Verdict}
    (hVerdict : v = .accept ∨ v = .reject) :
    v = m.verdict ↔
      (v = .accept ↔ m.state ∈ m.accept) := by
  unfold verdict IsAccepting
  by_cases hAccept : m.state ∈ m.accept
  · simp [hAccept]
  · rcases hVerdict with rfl | rfl <;> simp [hAccept]

/- When a run accepts or rejects. -/
theorem returns_verdict_iff
    {m last : Machine}
    {v : Verdict}
    (hVerdict : v = .accept ∨ v = .reject) :
    m.Returns (.ok v) last ↔
      (∃ n, m.Completes n last) ∧ v = last.verdict := by
  rw [returns_iff_continues]
  constructor
  · intro hParts
    rcases hParts with ⟨n, c, hContinues, hEnds⟩
    rcases (ends_verdict_iff hVerdict).mp hEnds with
      ⟨hBlank, hAdvance, hEq⟩
    exact
      ⟨⟨n, completes_iff_continues.mpr
        ⟨c, hContinues, hBlank, hAdvance⟩⟩, hEq⟩
  · intro hParts
    rcases hParts with ⟨⟨n, hCompletes⟩, hEq⟩
    rcases completes_iff_continues.mp hCompletes with
      ⟨c, hContinues, hBlank, hAdvance⟩
    exact
      ⟨n, c, hContinues,
        (ends_verdict_iff hVerdict).mpr
          ⟨hBlank, hAdvance, hEq⟩⟩

/- When a run stops without an action. -/
theorem returns_missingTransition_iff
    {m last : Machine}
    {key : Key} :
    m.Returns (.ok (.missingTransition key)) last ↔
      (∃ n, m.Sticks n last) ∧
        key = last.configuration.key := by
  rw [returns_iff_continues]
  constructor
  · intro hParts
    rcases hParts with ⟨n, c, hContinues, hEnds⟩
    rcases ends_missingTransition_iff.mp hEnds with
      ⟨rfl, rfl, hAdvance⟩
    exact
      ⟨⟨n, sticks_iff_continues.mpr
        ⟨hContinues, hAdvance⟩⟩, rfl⟩
  · intro hParts
    rcases hParts with ⟨⟨n, hSticks⟩, rfl⟩
    rcases sticks_iff_continues.mp hSticks with
      ⟨hContinues, hAdvance⟩
    exact
      ⟨n, last, hContinues,
        ends_missingTransition_iff.mpr ⟨rfl, rfl, hAdvance⟩⟩

/- Where a run stands that has reached its limit. -/
theorem returns_error
    {m last : Machine}
    {e : Error}
    (hReturns : m.Returns (.error e) last) :
    ∃ limit,
      m.maxSteps = some limit ∧
        e = .stepLimit limit ∧
        m.after? (limit - m.steps) = some last ∧
        last.steps = max limit m.steps := by
  rcases returns_iff_continues.mp hReturns with
    ⟨n, c, hContinues, hEnds⟩
  rcases ends_error_iff.mp hEnds with
    ⟨rfl, limit, hSpent, rfl⟩
  rcases hContinues.eq with ⟨hMax, _hAccept, hSteps⟩
  rcases spent?_eq_some_iff.mp hSpent with
    ⟨hLimit, hReached⟩
  have hOwn := hMax.symm.trans hLimit
  have hBound := hContinues.limit limit hOwn
  have hCount : limit - m.steps = n := by
    omega
  refine ⟨limit, hOwn, rfl, ?_, ?_⟩
  · rw [hCount]
    exact hContinues.reached
  · omega

/- A run returns an error when it neither completes nor sticks. -/
theorem exists_returns_error_iff
    {m : Machine}
    {e : Error} :
    (∃ last, m.Returns (.error e) last) ↔
      ∃ limit,
        m.maxSteps = some limit ∧
          e = .stepLimit limit ∧
          (∀ n last, ¬ m.Completes n last) ∧
          ∀ n last, ¬ m.Sticks n last := by
  constructor
  · intro hParts
    rcases hParts with ⟨last, hReturns⟩
    rcases returns_error hReturns with
      ⟨limit, hLimit, hError, _hAfter, _hSteps⟩
    refine ⟨limit, hLimit, hError, ?_, ?_⟩
    · intro n other hCompletes
      have hVerdict :
          other.verdict = .accept ∨
            other.verdict = .reject := by
        unfold verdict
        split
        · exact Or.inl rfl
        · exact Or.inr rfl
      have hOther :=
        (returns_verdict_iff hVerdict).mpr
          ⟨⟨n, hCompletes⟩, rfl⟩
      cases (hReturns.unique hOther).1
    · intro n other hSticks
      have hOther :=
        returns_missingTransition_iff.mpr
          ⟨⟨n, hSticks⟩, rfl⟩
      cases (hReturns.unique hOther).1
  · intro hParts
    rcases hParts with ⟨limit, hLimit, rfl, hCompletes, hSticks⟩
    rcases halts_of_maxSteps_eq_some hLimit with
      ⟨trace, result, last, hHalts⟩
    have hReturns :=
      returns_iff_exists_halts.mpr ⟨trace, hHalts⟩
    refine ⟨last, ?_⟩
    cases result with
    | error e =>
        rcases returns_error hReturns with
          ⟨limit', hLimit', rfl, _hAfter, _hSteps⟩
        cases hLimit.symm.trans hLimit'
        exact hReturns
    | ok v =>
        cases v with
        | accept =>
            rcases (returns_verdict_iff
                (Or.inl rfl)).mp hReturns with
              ⟨⟨n, hDone⟩, _hEq⟩
            exact absurd hDone (hCompletes n last)
        | reject =>
            rcases (returns_verdict_iff
                (Or.inr rfl)).mp hReturns with
              ⟨⟨n, hDone⟩, _hEq⟩
            exact absurd hDone (hCompletes n last)
        | missingTransition key =>
            rcases returns_missingTransition_iff.mp
                hReturns with
              ⟨⟨n, hStuck⟩, _hEq⟩
            exact absurd hStuck (hSticks n last)

/-
  Without a limit a run ends that comes to a blank or cannot
  take so many steps.
-/
theorem halts_of_forall_atBlank
    {m : Machine}
    {n : Nat}
    (hBlank :
      ∀ c, m.after? n = some c → c.configuration.AtBlank) :
    ∃ trace result last, Halts m trace result last := by
  induction n generalizing m with
  | zero =>
      have hHere := hBlank m rfl
      cases hAdvance : m.advance with
      | error e => exact ⟨_, _, _, .stopped hAdvance⟩
      | ok p => exact ⟨_, _, _, .finished hAdvance hHere⟩
  | succ n ih =>
      cases hAdvance : m.advance with
      | error e => exact ⟨_, _, _, .stopped hAdvance⟩
      | ok p =>
          by_cases hHere : m.configuration.AtBlank
          · exact ⟨_, _, _, .finished hAdvance hHere⟩
          · have hStep := (advance_eq_ok_iff.mp hAdvance).2
            rw [after?_succ_of_step_eq_ok hStep] at hBlank
            rcases ih hBlank with
              ⟨trace, result, last, hRest⟩
            exact
              ⟨_, _, _, .continued hAdvance hHere hRest⟩

/-
  A run returns exactly when it is limited, comes to a blank or
  comes to where no action is found.
-/
theorem exists_returns_iff
    {m : Machine} :
    (∃ result last, m.Returns result last) ↔
      m.maxSteps ≠ none ∨
        ∃ n, ∀ c, m.after? n = some c →
          c.configuration.AtBlank := by
  constructor
  · intro hParts
    rcases hParts with ⟨result, last, hReturns⟩
    by_cases hMax : m.maxSteps = none
    · apply Or.inr
      rcases returns_iff_continues.mp hReturns with
        ⟨n, c, hContinues, hEnds⟩
      have hReached := hContinues.reached
      cases hEnds with
      | stopped hAdvance =>
          refine ⟨n + 1, ?_⟩
          intro d hAfter
          have hSpent : last.spent? = none := by
            unfold spent?
            rw [hContinues.eq.1, hMax]
            rfl
          rw [after?_add_of_after?_eq_some hReached] at hAfter
          rcases advance_eq_error_iff.mp hAdvance with
            ⟨limit, hSome, _hError⟩ | ⟨_hSpent, hStep⟩
          · rw [hSpent] at hSome
            cases hSome
          · rw [after?_succ_of_step_eq_error hStep] at hAfter
            cases hAfter
      | finished _hAdvance hBlank =>
          refine ⟨n, ?_⟩
          intro d hAfter
          rw [hReached] at hAfter
          cases hAfter
          exact hBlank
    · exact Or.inl hMax
  · intro hEither
    have hHalts :
        ∃ trace result last, Halts m trace result last := by
      rcases hEither with hMax | ⟨n, hBlank⟩
      · rcases Option.ne_none_iff_exists'.mp hMax with
          ⟨limit, hLimit⟩
        exact halts_of_maxSteps_eq_some hLimit
      · exact halts_of_forall_atBlank hBlank
    rcases hHalts with ⟨trace, result, last, hHalts⟩
    exact
      ⟨result, last,
        returns_iff_exists_halts.mpr ⟨trace, hHalts⟩⟩

/-
  The exact meaning of a run. It accepts or rejects when it
  meets the first blank, can take one more step from there and
  may do so. It stops without an action when it comes to where
  there is none, not after the first blank, and may take another
  step there. It returns an error when it is limited and does
  neither, and it leaves the machine where the limit is reached.
  With a limit it always returns, and without one it returns
  unless it goes on from symbol to symbol for ever.
-/
theorem returns_exactly_when
    (m : Machine) :
    (∀ v last, v = .accept ∨ v = .reject →
      (m.Returns (.ok v) last ↔
        ∃ n,
          m.Completes n last ∧
            last.steps = m.steps + n + 1 ∧
            (v = .accept ↔ last.state ∈ m.accept))) ∧
      (∀ key last,
        m.Returns (.ok (.missingTransition key)) last ↔
          ∃ n,
            m.Sticks n last ∧
              last.steps = m.steps + n ∧
              key = ⟨last.state, last.symbols⟩) ∧
      (∀ e,
        (∃ last, m.Returns (.error e) last) ↔
          ∃ limit,
            m.maxSteps = some limit ∧
              e = .stepLimit limit ∧
              (∀ n last, ¬ m.Completes n last) ∧
              ∀ n last, ¬ m.Sticks n last) ∧
      (∀ limit last,
        m.Returns (.error (.stepLimit limit)) last →
          m.after? (limit - m.steps) = some last ∧
            last.steps = max limit m.steps) ∧
      ((∃ result last, m.Returns result last) ↔
        m.maxSteps ≠ none ∨
          ∃ n, ∀ c, m.after? n = some c →
            c.configuration.AtBlank) := by
  refine ⟨?_, ?_, ?_, ?_, exists_returns_iff⟩
  · intro v last hVerdict
    rw [returns_verdict_iff hVerdict, exists_and_right.symm]
    apply exists_congr
    intro n
    apply and_congr_right
    intro hCompletes
    have hEq := eq_of_after?_eq_some hCompletes.reached
    have hSteps : last.steps = m.steps + n + 1 := by
      rw [hEq]
      rfl
    have hAccept : last.accept = m.accept := by
      rw [hEq]
    rw [eq_verdict_iff hVerdict, hAccept]
    exact (and_iff_right hSteps).symm
  · intro key last
    rw [returns_missingTransition_iff, exists_and_right.symm]
    apply exists_congr
    intro n
    apply and_congr_right
    intro hSticks
    have hEq := eq_of_after?_eq_some hSticks.reached
    have hSteps : last.steps = m.steps + n := by
      rw [hEq]
    exact (and_iff_right hSteps).symm
  · intro e
    exact exists_returns_error_iff
  · intro limit last hReturns
    rcases returns_error hReturns with
      ⟨limit', _hLimit, hError, hAfter, hSteps⟩
    cases hError
    exact ⟨hAfter, hSteps⟩

end Machine

end MultiTape
