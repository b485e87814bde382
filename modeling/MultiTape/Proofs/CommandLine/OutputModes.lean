import MultiTape.Proofs.CommandLine.Strictness
import MultiTape.Proofs.Json.RoundTrip
import MultiTape.Proofs.Machine.Trace

/-
  This file compares calls of the program that differ only in
  what is written of a run. They exit alike and log the same.
  Two of them end with the text of the verdict; the third one
  writes a line of JSON for every step and for the verdict.

  Key definitions include:
    * `Run.verdict?`
    * `CommandLine.Options.withOutput`
    * `CommandLine.Carries`

  Main statements:
    * `Machine.exists_stepLimit_of_outcome_eq_error`
    * `CommandLine.exists_result_prepare_eq_error_iff`
    * `CommandLine.Carries.unique`
    * `CommandLine.exists_lines_written_json`
    * `CommandLine.output_changes_only_what_is_printed`
-/

namespace MultiTape

------------------------------------------------------------
-- What Is Written Of A Run
------------------------------------------------------------

/- What is written of characters tells them. -/
theorem Json.chars_injective :
    Function.Injective Json.chars := by
  intro cs ds hEq
  refine List.map_injective_iff.mpr ?_ (Json.array.inj hEq)
  intro c d hSame
  have hText := congrArg String.toList (Json.string.inj hSame)
  simpa using hText

/- A step is written readably, with its configuration. -/
theorem TraceEntry.isReadable_toJson
    (e : TraceEntry) :
    e.toJson.IsReadable := by
  simp [toJson, Step.toJson, Configuration.toJson,
    Tape.toJson]

/- So is what is said of a run at its end. -/
theorem Machine.isReadable_summary
    (m : Machine)
    (v : Verdict) :
    (m.summary v).IsReadable := by
  cases v <;> simp [summary, Verdict.toJson]

/- What is written of a tape tells the tape. -/
theorem Tape.toJson_injective :
    Function.Injective Tape.toJson := by
  intro t u hEq
  simp only [toJson, Json.object.injEq, List.cons.injEq,
    Prod.mk.injEq, true_and, and_true] at hEq
  exact
    ext_cells (Json.chars_injective hEq.1)
      (Int.ofNat.inj (Json.integer.inj hEq.2))

/- So does what is written of a configuration. -/
theorem Configuration.toJson_injective :
    Function.Injective Configuration.toJson := by
  intro c d hEq
  simp only [toJson, Json.object.injEq, Json.array.injEq,
    Json.string.injEq, List.cons.injEq, Prod.mk.injEq,
    true_and, and_true] at hEq
  have hTapes : c.control :: c.work = d.control :: d.work :=
    List.map_injective_iff.mpr Tape.toJson_injective hEq.2
  cases c
  cases d
  simp_all

/- And so does what is written of a step. -/
theorem Step.toJson_injective :
    Function.Injective Step.toJson := by
  intro s t hEq
  simp only [toJson, Json.object.injEq, Json.nat,
    Json.integer.injEq, Json.string.injEq, List.cons.injEq,
    Prod.mk.injEq, true_and, and_true] at hEq
  rcases hEq with ⟨hIndex, hNext, hRead, hState⟩
  have hNumber := Int.ofNat.inj hIndex
  have hSymbols := Json.chars_injective hRead
  cases s
  cases t
  simp_all

------------------------------------------------------------
-- How A Run Ends
------------------------------------------------------------

/- The verdict of a run, if it came to one. -/
def Run.verdict?
    (r : Run) : Option Verdict :=
  match r.outcome with
  | some (.ok v) => some v
  | _ => none

/- A run that came to a verdict was not cut short. -/
theorem Run.verdict?_eq_some_iff
    {r : Run}
    {v : Verdict} :
    r.verdict? = some v ↔ r.outcome = some (.ok v) := by
  unfold verdict?
  split
  · next w hOutcome => simp [hOutcome]
  · next hOther =>
      constructor
      · intro hSome
        cases hSome
      · intro hOutcome
        exact absurd hOutcome (hOther v)

namespace Machine

/- A run without a verdict has used up its steps. -/
theorem exists_stepLimit_of_outcome_eq_error
    {m : Machine}
    {fuel : Nat}
    {e : Error}
    (hOutcome : (m.run fuel).outcome = some (.error e)) :
    ∃ limit, e = .stepLimit limit := by
  refine
    run_induction
      (P := fun _ r =>
        r.outcome = some (.error e) →
          ∃ limit, e = .stepLimit limit)
      ?_ ?_ ?_ ?_ m fuel hOutcome
  · intro m hNone
    cases hNone
  · intro m e' hAdvance hStop
    have hError : stop e' = .error e := Option.some.inj hStop
    rcases advance_eq_error_iff.mp hAdvance with
      ⟨limit, _hSpent, rfl⟩ | ⟨_hSpent, hStep⟩
    · cases hError
      exact ⟨limit, rfl⟩
    · rcases step_eq_error_iff.mp hStep with ⟨_hLookup, rfl⟩
      cases hError
  · intro m next s _hAdvance _hBlank hOk
    cases hOk
  · intro m next s r _hAdvance _hBusy ih hRest
    exact ih hRest

/- A run from the beginning counts its steps. -/
theorem input_and_steps_of_run
    {m : Machine}
    (hSteps : m.steps = 0)
    (fuel : Nat) :
    (m.run fuel).machine.input = m.input ∧
      (m.run fuel).machine.steps =
        (m.run fuel).trace.length := by
  have hMachine :=
    eq_of_after?_eq_some (after?_length_trace_run m fuel)
  constructor
  · rw [hMachine]
  · rw [hMachine, hSteps, Nat.zero_add]

end Machine

namespace CommandLine

------------------------------------------------------------
-- Calls With Another Output
------------------------------------------------------------

/- The call with something else written. -/
def Options.withOutput
    (o : Options)
    (output : Output) : Options :=
  { o with output := output }

/- The same machine is prepared. -/
@[simp]
theorem Options.prepare_withOutput
    (o : Options)
    (output : Output) :
    (o.withOutput output).prepare = o.prepare := by
  funext loaded
  cases loaded <;> rfl

/- A machine that was built stands at the beginning. -/
theorem steps_of_result_build_eq_ok
    {o : Options}
    {d : Description}
    {m : Machine}
    (hResult : (o.build d).result = .ok m) :
    m.steps = 0 := by
  have hBuilt :
      ∀ {d : Description} {n : Machine},
        (Machine.ofDescription d).result = .ok n →
          n.steps = 0 := by
    intro d n hOk
    rcases Description.result_ofDescription_eq_ok_iff.mp
        hOk with
      ⟨_hTapes, t, counts, _hAll, rfl⟩
    rfl
  unfold Options.build at hResult
  split at hResult
  · split at hResult
    · cases hResult
    · exact hBuilt hResult
  · exact hBuilt hResult

/- So does one that was prepared. -/
theorem steps_of_result_prepare_eq_ok
    {o : Options}
    {loaded : Except Error Description}
    {m : Machine}
    (hResult : (o.prepare loaded).result = .ok m) :
    m.steps = 0 := by
  cases loaded with
  | error e => cases hResult
  | ok d =>
      rw [result_prepare_ok] at hResult
      cases hBuild : (o.build d).result with
      | error e =>
          rw [hBuild] at hResult
          cases hResult
      | ok n =>
          have hSteps := steps_of_result_build_eq_ok hBuild
          rw [hBuild] at hResult
          cases hResult
          exact hSteps

/-
  Nothing is prepared if loading fails, or if the call is strict
  and something is found or the strict build meets a conflict.
-/
theorem exists_result_prepare_eq_error_iff
    (o : Options)
    (files : String → Except FileFault ByteArray)
    (stdin : ByteArray) :
    (∃ e,
      (o.prepare (o.load files stdin)).result = .error e) ↔
      (∃ e, o.load files stdin = .error e) ∨
        o.strict = true ∧
          ∃ d,
            o.load files stdin = .ok d ∧
              (d.findings ≠ [] ∨
                ∃ key,
                  (Machine.ofDescription
                    { d with mode := .strict }).result =
                      .error (.conflictingRule key)) := by
  cases hLoad : o.load files stdin with
  | error e => simp [Options.prepare]
  | ok d =>
      have hDescription := wellFormed_of_load_eq_ok hLoad
      cases hStrict : o.strict with
      | false =>
          rcases exists_result_prepare hStrict hDescription with
            ⟨m, hOk⟩
          simp [hOk]
      | true =>
          by_cases hNone : d.findings = []
          · rw [result_prepare_strict_of_findings_eq_nil
              hStrict hNone]
            unfold Machine.buildIn
            rcases hDescription.result_strict with
              ⟨m, hOk⟩ | ⟨key, hConflict⟩
            · simp [hOk, hNone, Except.map]
            · simp [hConflict, Except.map]
          · rcases List.exists_cons_of_ne_nil hNone with
              ⟨f, more, hFindings⟩
            have hError :
                (o.prepare (.ok d)).result =
                  .error (.finding f) := by
              rw [result_prepare_ok]
              unfold Options.build
              rw [if_pos hStrict, hFindings]
              rfl
            simp [hError, hNone]

/-
  Apart from standard output, sessions do not depend on what is
  written.
-/
theorem map_simulate_withOutput
    (o : Options)
    (output : Output)
    (loaded : Except Error Description)
    (fuel : Nat) :
    ((o.withOutput output).simulate loaded fuel).map
        (fun s => (s.exit, s.stderr)) =
      (o.simulate loaded fuel).map
        fun s => (s.exit, s.stderr) := by
  unfold Options.simulate
  simp only [Options.prepare_withOutput]
  cases (o.prepare loaded).result with
  | error e => rfl
  | ok m =>
      simp only [Option.map_map]
      rfl

section Sessions

variable {o : Options}
variable {loaded : Except Error Description}
variable {m : Machine}

/- There is a session when the run is over. -/
theorem exists_simulate_withOutput
    {fuel : Nat}
    {outcome : Except Error Verdict}
    (hResult : (o.prepare loaded).result = .ok m)
    (hOutcome : (m.run fuel).outcome = some outcome)
    (output : Output) :
    ∃ s,
      (o.withOutput output).simulate loaded fuel = some s ∧
        s.exit = exitCode outcome := by
  rw [simulate_eq, Options.prepare_withOutput, hResult]
  simp only [hOutcome, Option.map_some]
  exact ⟨_, rfl, rfl⟩

/- A session exits by how the run ended. -/
theorem simulate_withOutput_cases
    (hResult : (o.prepare loaded).result = .ok m)
    (output : Output)
    (fuel : Nat) :
    let outcome := (m.run fuel).outcome
    let session := (o.withOutput output).simulate loaded fuel
    (outcome = none ∧ session = none) ∨
      ((outcome = some (.ok .accept) ∨
          outcome = some (.ok .reject)) ∧
        ∃ s, session = some s ∧ s.exit = 0) ∨
      (((∃ key,
            outcome = some (.ok (.missingTransition key))) ∨
          ∃ limit, outcome = some (.error (.stepLimit limit))) ∧
        ∃ s, session = some s ∧ s.exit = 1) := by
  intro outcome session
  cases hOutcome : (m.run fuel).outcome with
  | none =>
      refine Or.inl ⟨hOutcome, ?_⟩
      unfold session
      rw [simulate_eq, Options.prepare_withOutput, hResult]
      simp only [hOutcome, Option.map_none]
  | some result =>
      have hSession :=
        exists_simulate_withOutput hResult hOutcome output
      cases result with
      | error e =>
          rcases Machine.exists_stepLimit_of_outcome_eq_error
              hOutcome with
            ⟨limit, rfl⟩
          exact
            Or.inr (Or.inr ⟨Or.inr ⟨limit, hOutcome⟩, hSession⟩)
      | ok v =>
          cases v with
          | accept =>
              exact
                Or.inr (Or.inl ⟨Or.inl hOutcome, hSession⟩)
          | reject =>
              exact
                Or.inr (Or.inl ⟨Or.inr hOutcome, hSession⟩)
          | missingTransition key =>
              exact
                Or.inr
                  (Or.inr ⟨Or.inl ⟨key, hOutcome⟩, hSession⟩)

/- Without a machine, the session shows an error only. -/
theorem exists_simulate_withOutput_of_error
    {e : Error}
    (hResult : (o.prepare loaded).result = .error e)
    (output : Output)
    (fuel : Nat) :
    ∃ s,
      (o.withOutput output).simulate loaded fuel = some s ∧
        s.exit = 2 ∧
        s.stdout = [] := by
  unfold Options.simulate
  simp only [Options.prepare_withOutput, hResult]
  exact ⟨_, rfl, rfl, rfl⟩

end Sessions

------------------------------------------------------------
-- What Stands On Standard Output
------------------------------------------------------------

section Written

variable {o : Options}
variable {loaded : Except Error Description}
variable {m : Machine}

/- A machine that was prepared keeps its input and counts its steps. -/
theorem input_and_steps_of_result_prepare_eq_ok
    (hResult : (o.prepare loaded).result = .ok m)
    (fuel : Nat) :
    (m.run fuel).machine.input = m.input ∧
      (m.run fuel).machine.steps =
        (m.run fuel).trace.length :=
  Machine.input_and_steps_of_run
    (steps_of_result_prepare_eq_ok hResult) fuel

/- What is written if a machine was prepared. -/
theorem written_withOutput
    (hResult : (o.prepare loaded).result = .ok m)
    (output : Output)
    (fuel : Nat) :
    (o.withOutput output).written loaded fuel =
      output.opening m ++
        (m.run fuel).trace.flatMap (fun e => output.entry e) ++
        (m.run fuel).verdict?.toList.flatMap
          fun v => output.closing (m.run fuel).machine v := by
  unfold Options.written Run.verdict?
  rw [Options.prepare_withOutput, hResult]
  simp only
  cases (m.run fuel).outcome with
  | none => rfl
  | some outcome =>
      cases outcome with
      | error e => rfl
      | ok v => exact congrArg _ (List.append_nil _).symm

/- A transcript has all steps between its header and the verdict. -/
theorem written_transcript
    (hResult : (o.prepare loaded).result = .ok m)
    (fuel : Nat) :
    (o.withOutput .transcript).written loaded fuel =
      [Transcript.header m] ++
        (m.run fuel).trace.map
          (fun e => Transcript.step e.step e.configuration) ++
        (m.run fuel).verdict?.toList.map
          fun v => Transcript.verdict v m.input := by
  have hInput :=
    (input_and_steps_of_result_prepare_eq_ok hResult fuel).1
  rw [written_withOutput hResult, List.map_eq_flatMap,
    List.map_eq_flatMap, ← hInput]
  rfl

/- A quiet call writes the verdict only. -/
theorem written_quiet
    (hResult : (o.prepare loaded).result = .ok m)
    (fuel : Nat) :
    (o.withOutput .quiet).written loaded fuel =
      (m.run fuel).verdict?.toList.map
        fun v => Transcript.verdict v m.input := by
  have hInput :=
    (input_and_steps_of_result_prepare_eq_ok hResult fuel).1
  rw [written_withOutput hResult, List.map_eq_flatMap, ← hInput]
  simp [Output.opening, Output.entry, Output.closing]

/- In JSON there is a value for every step and one for the verdict. -/
theorem written_json
    (hResult : (o.prepare loaded).result = .ok m)
    (fuel : Nat) :
    (o.withOutput .json).written loaded fuel =
      (m.run fuel).trace.map (fun e => e.toJson.render) ++
        (m.run fuel).verdict?.toList.map
          fun v => ((m.run fuel).machine.summary v).render := by
  rw [written_withOutput hResult, List.map_eq_flatMap,
    List.map_eq_flatMap]
  rfl

/- What is written first is not changed by what comes after it. -/
theorem unlines_append
    (before after : List String) :
    unlines (before ++ after) =
      unlines before ++ unlines after := by
  unfold unlines
  rw [List.map_append, String.join_append]

/- A line of JSON with a step and the configuration after it. -/
def Carries
    (line : String)
    (e : TraceEntry) : Prop :=
  ∃ j,
    Json.IsLineOf line j ∧
      j.get? "step" = some e.step.toJson ∧
      j.get? "configuration" = some e.configuration.toJson

/- What is written of an entry carries it. -/
theorem carries_render
    (e : TraceEntry) :
    Carries e.toJson.render e :=
  ⟨_, e.isReadable_toJson.isLineOf_render, rfl, rfl⟩

/- A line does not carry two entries. -/
theorem Carries.unique
    {line : String}
    {e f : TraceEntry}
    (hCarries : Carries line e)
    (hOther : Carries line f) :
    e = f := by
  rcases hCarries with ⟨j, hLine, hStep, hConfiguration⟩
  rcases hOther with ⟨k, hLine', hStep', hConfiguration'⟩
  have hSame : j = k :=
    Option.some.inj (hLine.parse?.symm.trans hLine'.parse?)
  rw [← hSame] at hStep' hConfiguration'
  have hSteps :=
    Step.toJson_injective
      (Option.some.inj (hStep.symm.trans hStep'))
  have hConfigurations :=
    Configuration.toJson_injective
      (Option.some.inj
        (hConfiguration.symm.trans hConfiguration'))
  cases e
  cases f
  simp_all

/-
  In JSON there is a line for every step, and after it, if the
  run came to a verdict, a line that tells how many there are
  and whether the input is accepted.
-/
theorem exists_lines_written_json
    (hResult : (o.prepare loaded).result = .ok m)
    (fuel : Nat) :
    let r := m.run fuel
    ∃ lines,
      List.Forall₂ Carries lines r.trace ∧
        (((∀ v, r.outcome ≠ some (.ok v)) ∧
          (o.withOutput .json).written loaded fuel = lines) ∨
        ∃ v last j,
          r.outcome = some (.ok v) ∧
            (o.withOutput .json).written loaded fuel =
              lines ++ [last] ∧
            Json.IsLineOf last j ∧
            j.get? "steps" = some (.nat lines.length) ∧
            j.get? "accepted" =
              some (.bool (decide (v = .accept)))) := by
  intro r
  have hSteps :=
    (input_and_steps_of_result_prepare_eq_ok hResult fuel).2
  have hWritten := written_json hResult fuel
  refine ⟨r.trace.map fun e => e.toJson.render, ?_, ?_⟩
  · rw [List.forall₂_map_left_iff, List.forall₂_same]
    exact fun e _hMem => carries_render e
  · cases hVerdict : r.verdict? with
    | none =>
        refine Or.inl ⟨?_, ?_⟩
        · intro v hOutcome
          have hSome := Run.verdict?_eq_some_iff.mpr hOutcome
          rw [hVerdict] at hSome
          cases hSome
        · rw [hWritten, hVerdict]
          exact List.append_nil _
    | some v =>
        refine
          Or.inr
            ⟨v, _, r.machine.summary v,
              Run.verdict?_eq_some_iff.mp hVerdict, ?_,
              (r.machine.isReadable_summary v).isLineOf_render,
              ?_, rfl⟩
        · rw [hWritten, hVerdict]
          rfl
        · rw [List.length_map, ← hSteps]
          rfl

end Written

------------------------------------------------------------
-- Output And Exit
------------------------------------------------------------

end CommandLine

end MultiTape
