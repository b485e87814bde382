import MultiTape.Proofs.Machine.Halting

/-
  This file compares runs of one machine under different limits
  on steps. A run that comes to a verdict within a limit comes
  to it within every wider one. A run that the limit cuts short
  can be taken up again where it stopped, and gives together
  with its continuation the run that was not cut.

  Key definitions include:
    * `Machine.RunsTo`
    * `Run.afterAll`

  Main statements:
    * `Machine.Halts.widen`
    * `Machine.Halts.run_widen`
    * `Machine.Halts.widen_iff`
    * `Machine.limit_only_truncates_runs`
-/

namespace MultiTape

/- Put steps in front of a run. -/
def Run.afterAll
    (trace : List TraceEntry)
    (r : Run) : Run :=
  { r with trace := trace ++ r.trace }

namespace Machine

------------------------------------------------------------
-- Steps Under Another Limit
------------------------------------------------------------

/- The limit has no part in a step. -/
theorem step_setMaxSteps_of_step_eq_ok
    {m next : Machine}
    {s : Step}
    (hStep : m.step = .ok (next, s))
    (limit : Option Nat) :
    (m.setMaxSteps limit).step =
      .ok (next.setMaxSteps limit, s) := by
  rcases step_eq_ok_iff.mp hStep with
    ⟨a, hLookup, rfl, rfl⟩
  exact step_eq_ok_iff.mpr ⟨a, hLookup, rfl, rfl⟩

/- Nor has it a part in a step that cannot be taken. -/
theorem step_setMaxSteps_of_step_eq_error
    {m : Machine}
    {e : Error}
    (hStep : m.step = .error e)
    (limit : Option Nat) :
    (m.setMaxSteps limit).step = .error e := by
  rcases step_eq_error_iff.mp hStep with ⟨hLookup, rfl⟩
  exact step_eq_error_iff.mpr ⟨hLookup, rfl⟩

/- What is not reached of a limit is not reached of a wider one. -/
theorem spent?_setMaxSteps_eq_none
    {m : Machine}
    {limit : Nat}
    {wider : Option Nat}
    (hLimit : m.maxSteps = some limit)
    (hWider : ∀ w ∈ wider, limit ≤ w)
    (hSpent : m.spent? = none) :
    (m.setMaxSteps wider).spent? = none := by
  apply spent?_eq_none_iff.mpr
  intro w hw
  have hLess := spent?_eq_none_iff.mp hSpent limit hLimit
  exact Nat.lt_of_lt_of_le hLess (hWider w hw)

/- A run under a wider limit takes the steps of the other. -/
theorem advance_widen_of_eq_ok
    {m next : Machine}
    {s : Step}
    {limit : Nat}
    {wider : Option Nat}
    (hLimit : m.maxSteps = some limit)
    (hWider : ∀ w ∈ wider, limit ≤ w)
    (hAdvance : m.advance = .ok (next, s)) :
    (m.setMaxSteps wider).advance =
      .ok (next.setMaxSteps wider, s) := by
  rcases advance_eq_ok_iff.mp hAdvance with
    ⟨hSpent, hStep⟩
  exact
    advance_eq_ok_iff.mpr
      ⟨spent?_setMaxSteps_eq_none hLimit hWider hSpent,
        step_setMaxSteps_of_step_eq_ok hStep wider⟩

/- It stops without an action where the other does. -/
theorem advance_widen_of_eq_noTransition
    {m : Machine}
    {key : Key}
    {limit : Nat}
    {wider : Option Nat}
    (hLimit : m.maxSteps = some limit)
    (hWider : ∀ w ∈ wider, limit ≤ w)
    (hAdvance : m.advance = .error (.noTransition key)) :
    (m.setMaxSteps wider).advance =
      .error (.noTransition key) := by
  rcases advance_eq_error_iff.mp hAdvance with
    ⟨w, _hSpent, hError⟩ | ⟨hSpent, hStep⟩
  · cases hError
  · exact
      advance_eq_error_iff.mpr
        (Or.inr
          ⟨spent?_setMaxSteps_eq_none hLimit hWider hSpent,
            step_setMaxSteps_of_step_eq_error hStep wider⟩)

------------------------------------------------------------
-- Runs Under A Wider Limit
------------------------------------------------------------

/- Only a missing action stops a run with a verdict. -/
theorem stop_eq_ok_iff
    {e : Error}
    {v : Verdict} :
    stop e = .ok v ↔
      ∃ key,
        e = .noTransition key ∧ v = .missingTransition key := by
  cases e <;> simp [stop, eq_comm]

/- A run that takes a step from a symbol ends as the rest of it. -/
theorem halts_iff_of_advance_eq_ok
    {m next last : Machine}
    {s : Step}
    {trace : List TraceEntry}
    {result : Except Error Verdict}
    (hAdvance : m.advance = .ok (next, s))
    (hBusy : ¬ m.configuration.AtBlank) :
    Halts m trace result last ↔
      ∃ more,
        trace = ⟨s, next.configuration⟩ :: more ∧
          Halts next more result last := by
  constructor
  · intro hHalts
    cases hHalts with
    | stopped hOther =>
        rw [hAdvance] at hOther
        cases hOther
    | finished _hOther hBlank => exact absurd hBlank hBusy
    | continued hOther _hBusy hRest =>
        rw [hAdvance] at hOther
        cases hOther
        exact ⟨_, rfl, hRest⟩
  · intro hParts
    rcases hParts with ⟨more, rfl, hRest⟩
    exact .continued hAdvance hBusy hRest

/-
  A verdict that is reached within a limit is reached within a
  wider one, by the same steps.
-/
theorem Halts.widen
    {m last : Machine}
    {trace : List TraceEntry}
    {v : Verdict}
    {limit : Nat}
    {wider : Option Nat}
    (hHalts : Halts m trace (.ok v) last)
    (hLimit : m.maxSteps = some limit)
    (hWider : ∀ w ∈ wider, limit ≤ w) :
    Halts (m.setMaxSteps wider) trace (.ok v)
      (last.setMaxSteps wider) := by
  generalize hResult : Except.ok v = result at hHalts
  induction hHalts with
  | @stopped m e hAdvance =>
      rcases stop_eq_ok_iff.mp hResult.symm with
        ⟨key, rfl, _hv⟩
      exact
        .stopped
          (advance_widen_of_eq_noTransition hLimit hWider
            hAdvance)
  | @finished m next s hAdvance hBlank =>
      have hWide :=
        advance_widen_of_eq_ok hLimit hWider hAdvance
      exact .finished hWide hBlank
  | @continued m next last s trace result hAdvance hBusy _hRest
      ih =>
      have hWide :=
        advance_widen_of_eq_ok hLimit hWider hAdvance
      have hMax :=
        (maxSteps_and_steps_of_advance_eq_ok hAdvance).1
      have hOn : ¬ (m.setMaxSteps wider).configuration.AtBlank :=
        hBusy
      exact
        (halts_iff_of_advance_eq_ok hWide hOn).mpr
          ⟨trace, rfl, ih (hMax.trans hLimit) hResult⟩

/-
  Up to where a limit cuts a run short, the run under a wider
  one takes the same steps, and then it goes on from there. The
  induction is along the run that was cut; at its end nothing
  is left to show, even if the limit is reached at a blank,
  since whether a run is over is told by the machine alone.
-/
theorem Halts.run_widen
    {m last : Machine}
    {trace : List TraceEntry}
    {e : Error}
    {limit : Nat}
    {wider : Option Nat}
    (hHalts : Halts m trace (.error e) last)
    (hLimit : m.maxSteps = some limit)
    (hWider : ∀ w ∈ wider, limit ≤ w)
    (fuel : Nat) :
    (m.setMaxSteps wider).run (trace.length + fuel) =
      ((last.setMaxSteps wider).run fuel).afterAll trace := by
  generalize hResult :
    (Except.error e : Except Error Verdict) = result at hHalts
  induction hHalts with
  | stopped _hAdvance =>
      rw [List.length_nil, Nat.zero_add]
      rfl
  | finished _hAdvance _hBlank => cases hResult
  | @continued m next last s trace result hAdvance hBusy _hRest
      ih =>
      have hWide :=
        advance_widen_of_eq_ok hLimit hWider hAdvance
      have hMax :=
        (maxSteps_and_steps_of_advance_eq_ok hAdvance).1
      have hRest := ih (hMax.trans hLimit) hResult
      have hOn : ¬ (m.setMaxSteps wider).configuration.AtBlank :=
        hBusy
      rw [List.length_cons, Nat.add_right_comm, run_succ,
        hWide]
      simp only [if_neg hOn, hRest]
      rfl

/-
  The run under a wider limit ends exactly as the run that was
  cut short does when it is taken up again under that limit.
-/
theorem Halts.widen_iff
    {m last final : Machine}
    {trace whole : List TraceEntry}
    {e : Error}
    {result : Except Error Verdict}
    {limit : Nat}
    {wider : Option Nat}
    (hHalts : Halts m trace (.error e) last)
    (hLimit : m.maxSteps = some limit)
    (hWider : ∀ w ∈ wider, limit ≤ w) :
    Halts (m.setMaxSteps wider) whole result final ↔
      ∃ more,
        whole = trace ++ more ∧
          Halts (last.setMaxSteps wider) more result final := by
  generalize hResult :
    (Except.error e : Except Error Verdict) = cut at hHalts
  induction hHalts generalizing whole with
  | stopped _hAdvance => simp
  | finished _hAdvance _hBlank => cases hResult
  | @continued m next last s trace cut hAdvance hBusy _hRest
      ih =>
      have hWide :=
        advance_widen_of_eq_ok hLimit hWider hAdvance
      have hMax :=
        (maxSteps_and_steps_of_advance_eq_ok hAdvance).1
      have hOn : ¬ (m.setMaxSteps wider).configuration.AtBlank :=
        hBusy
      rw [halts_iff_of_advance_eq_ok hWide hOn]
      constructor
      · intro hParts
        rcases hParts with ⟨rest, rfl, hRest⟩
        rcases (ih (hMax.trans hLimit) hResult).mp hRest with
          ⟨more, rfl, hMore⟩
        exact ⟨more, rfl, hMore⟩
      · intro hParts
        rcases hParts with ⟨more, rfl, hMore⟩
        refine ⟨trace ++ more, rfl, ?_⟩
        exact
          (ih (hMax.trans hLimit) hResult).mpr
            ⟨more, rfl, hMore⟩

/- A run that found no action finds none when it is called again. -/
theorem Halts.again
    {m last : Machine}
    {trace : List TraceEntry}
    {key : Key}
    (hHalts : Halts m trace (.ok (.missingTransition key)) last) :
    last.maxSteps = m.maxSteps ∧
      Halts last [] (.ok (.missingTransition key)) last := by
  generalize hResult :
    Except.ok (Verdict.missingTransition key) = result
      at hHalts
  induction hHalts with
  | stopped hAdvance => exact ⟨rfl, .stopped hAdvance⟩
  | @finished m next s _hAdvance _hBlank =>
      unfold verdict at hResult
      split at hResult <;> cases hResult
  | continued hAdvance _hBusy _hRest ih =>
      rcases ih hResult with ⟨hSame, hAgain⟩
      have hMax :=
        (maxSteps_and_steps_of_advance_eq_ok hAdvance).1
      exact ⟨hSame.trans hMax, hAgain⟩

------------------------------------------------------------
-- The Limit Only Truncates
------------------------------------------------------------

/- The run ends, with its steps, its result and the machine that it leaves. -/
def RunsTo
    (m : Machine)
    (trace : List TraceEntry)
    (result : Except Error Verdict)
    (last : Machine) : Prop :=
  ∃ fuel, m.run fuel = ⟨last, trace, some result⟩

/- A run ends when it does by the rules. -/
theorem runsTo_iff_halts
    {m last : Machine}
    {trace : List TraceEntry}
    {result : Except Error Verdict} :
    m.RunsTo trace result last ↔ Halts m trace result last :=
  halts_iff_exists_run.symm

/-
  A limit does nothing but cut runs short. A verdict that is
  reached within it is reached within every wider limit, by the
  same steps and in the same machine but for the limit. A run
  that it cuts is the beginning of every run under a wider
  limit, be it one that never ends, and ends as that run does
  when it is taken up again from where it was cut: all steps
  together are those of the run that was not cut. After a run
  that found no action nothing happens in another one.
-/
theorem limit_only_truncates_runs
    (m : Machine)
    {limit : Nat}
    {wider : Option Nat}
    (hWider : ∀ w ∈ wider, limit ≤ w) :
    (∀ trace v last,
      (m.setMaxSteps (some limit)).RunsTo trace (.ok v) last →
        (m.setMaxSteps wider).RunsTo trace (.ok v)
          (last.setMaxSteps wider)) ∧
      (∀ trace last,
        (m.setMaxSteps (some limit)).RunsTo trace
            (.error (.stepLimit limit)) last →
          (∀ fuel,
            trace.length ≤ fuel →
              trace <+: ((m.setMaxSteps wider).run fuel).trace) ∧
            ∀ whole result final,
              (m.setMaxSteps wider).RunsTo whole result final ↔
                ∃ more,
                  whole = trace ++ more ∧
                    (last.setMaxSteps wider).RunsTo more result
                      final) ∧
      ∀ budget trace key last,
        (m.setMaxSteps budget).RunsTo trace
            (.ok (.missingTransition key)) last →
          last.maxSteps = budget ∧
            last.RunsTo [] (.ok (.missingTransition key))
              last := by
  simp only [runsTo_iff_halts]
  refine ⟨?_, ?_, ?_⟩
  · intro trace v last hHalts
    exact hHalts.widen rfl hWider
  · intro trace last hHalts
    refine ⟨?_, ?_⟩
    · intro fuel hEnough
      rcases Nat.exists_eq_add_of_le hEnough with
        ⟨extra, rfl⟩
      have hRun :
          (m.setMaxSteps wider).run (trace.length + extra) =
            ((last.setMaxSteps wider).run extra).afterAll
              trace :=
        hHalts.run_widen rfl hWider extra
      rw [hRun]
      exact List.prefix_append _ _
    · intro whole result final
      exact hHalts.widen_iff rfl hWider
  · intro budget trace key last hHalts
    exact hHalts.again

/-
  The copying machine may take two steps, which lead to the
  blank after the input. Its run is cut there and taken up
  again for the one step that is left.
-/
theorem copier_run_resumed_at_blank :
    (∀ w ∈ some 3, 2 ≤ w) ∧
      ∃ trace more last final,
        (copier.setMaxSteps (some 2)).RunsTo trace
            (.error (.stepLimit 2)) last ∧
          trace.length = 2 ∧
          last.configuration.AtBlank ∧
          (last.setMaxSteps (some 3)).RunsTo more (.ok .accept)
            final ∧
          more.length = 1 ∧
          (copier.setMaxSteps (some 3)).RunsTo (trace ++ more)
            (.ok .accept) final := by
  have hWider : ∀ w ∈ some 3, 2 ≤ w := by
    decide
  have hCut :
      (copier.setMaxSteps (some 2)).RunsTo
        ((copier.setMaxSteps (some 2)).run 3).trace
        (.error (.stepLimit 2))
        ((copier.setMaxSteps (some 2)).run 3).machine :=
    ⟨3, rfl⟩
  have hMore :
      (((copier.setMaxSteps (some 2)).run 3).machine.setMaxSteps
          (some 3)).RunsTo _ (.ok .accept) _ :=
    ⟨1, rfl⟩
  refine
    ⟨hWider, _, _, _, _, hCut, rfl, by decide, hMore, rfl, ?_⟩
  exact
    (((limit_only_truncates_runs copier hWider).2.1 _ _
      hCut).2 _ _ _).mpr ⟨_, rfl, hMore⟩

end Machine

end MultiTape
