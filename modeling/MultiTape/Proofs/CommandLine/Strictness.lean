import MultiTape.Proofs.CommandLine.ExitCode

/-
  This file compares two calls of the program that differ only
  in whether findings and overwritten actions are errors. The
  strict call gives up exactly where the other one warns, and
  where it does not give up both do the same.

  Key definitions include:
    * `CommandLine.Options.events`
    * `CommandLine.Options.written`
    * `CommandLine.Clean`

  Main statements:
    * `Machine.run_setMode`
    * `CommandLine.simulate_eq`
    * `CommandLine.filter_warn_events`
    * `CommandLine.strict_makes_errors_of_warnings`
-/

namespace MultiTape

------------------------------------------------------------
-- Runs In Another Mode
------------------------------------------------------------

namespace Machine

/- The handling of repeated keys has no part in a step of a run. -/
theorem advance_setMode
    (m : Machine)
    (mode : Mode) :
    (m.setMode mode).advance =
      m.advance.map fun p => (p.1.setMode mode, p.2) := by
  have hSpent : (m.setMode mode).spent? = m.spent? :=
    rfl
  have hLookup :
      (m.setMode mode).table.lookup (m.setMode mode).state
          (m.setMode mode).symbols =
        m.table.lookup m.state m.symbols :=
    rfl
  unfold advance step
  rw [hSpent, hLookup]
  cases m.spent? with
  | some limit => rfl
  | none =>
      cases m.table.lookup m.state m.symbols with
      | none => rfl
      | some a => rfl

/- Nor has it in a run. -/
theorem run_setMode
    (m : Machine)
    (mode : Mode)
    (fuel : Nat) :
    (m.setMode mode).run fuel =
      { m.run fuel with
        machine := (m.run fuel).machine.setMode mode } := by
  induction fuel generalizing m with
  | zero => rfl
  | succ fuel ih =>
      rw [run_succ, run_succ, advance_setMode]
      cases m.advance with
      | error e => rfl
      | ok p =>
          by_cases hBlank : m.configuration.AtBlank
          · have hBlank' :
                (m.setMode mode).configuration.AtBlank :=
              hBlank
            simp only [Except.map, if_pos hBlank,
              if_pos hBlank']
            rfl
          · have hBusy :
                ¬ (m.setMode mode).configuration.AtBlank :=
              hBlank
            simp only [Except.map, if_neg hBlank,
              if_neg hBusy, ih]
            rfl

end Machine

/- Nothing in a run is a warning. -/
theorem Run.level_ne_warn_of_mem_events
    {r : Run}
    {e : Event}
    (hMem : e ∈ r.events) :
    e.level ≠ .warn := by
  unfold events closingEvents at hMem
  rcases List.mem_append.mp hMem with hBefore | hClosing
  · rcases List.mem_cons.mp hBefore with rfl | hStep
    · simp [Event.level]
    · rcases List.mem_map.mp hStep with ⟨entry, _hEntry, rfl⟩
      simp [Event.level]
  · split at hClosing
    · rw [List.mem_singleton.mp hClosing]
      simp [Event.level]
    · cases hClosing

namespace CommandLine

------------------------------------------------------------
-- What Is Noted And Written
------------------------------------------------------------

/-
  What is worth noting while the machine is prepared and while
  it runs, for at most the given number of steps.
-/
def Options.events
    (o : Options)
    (loaded : Except Error Description)
    (fuel : Nat) : List Event :=
  (o.prepare loaded).events ++
    match (o.prepare loaded).result with
    | .error _ => []
    | .ok m => (m.run fuel).events

/-
  What stands on standard output after at most the given number
  of steps, be the run over by then or not.
-/
def Options.written
    (o : Options)
    (loaded : Except Error Description)
    (fuel : Nat) : List String :=
  match (o.prepare loaded).result with
  | .error _ => []
  | .ok m =>
      o.output.opening m ++
        (m.run fuel).trace.flatMap (fun e => o.output.entry e) ++
        match (m.run fuel).outcome with
        | none => []
        | some outcome =>
            o.verdictLines (m.run fuel).machine outcome

/-
  A session shows what is written and what is noted, and after
  that an error, if there is one.
-/
theorem simulate_eq
    (o : Options)
    (loaded : Except Error Description)
    (fuel : Nat) :
    o.simulate loaded fuel =
      match (o.prepare loaded).result with
      | .error e =>
          some
            ⟨loadFailure, o.written loaded fuel,
              o.log (o.events loaded fuel) ++ [errorLine e]⟩
      | .ok m =>
          (m.run fuel).outcome.map fun outcome =>
            ⟨exitCode outcome, o.written loaded fuel,
              o.log (o.events loaded fuel) ++
                errorLines outcome⟩ := by
  unfold Options.simulate Options.written Options.events
  cases hResult : (o.prepare loaded).result with
  | error e => simp [hResult]
  | ok m =>
      simp only [hResult]
      cases (m.run fuel).outcome with
      | none => rfl
      | some outcome => rfl

/- What a session shows on both outputs. -/
theorem shown_of_simulate_eq_some
    {o : Options}
    {loaded : Except Error Description}
    {fuel : Nat}
    {s : Session}
    (hSession : o.simulate loaded fuel = some s) :
    s.stdout = o.written loaded fuel ∧
      ∃ errors,
        s.stderr = o.log (o.events loaded fuel) ++ errors := by
  rw [simulate_eq] at hSession
  split at hSession
  · cases hSession
    exact ⟨rfl, _, rfl⟩
  · rcases Option.map_eq_some_iff.mp hSession with
      ⟨outcome, _hOutcome, rfl⟩
    exact ⟨rfl, _, rfl⟩

/- The mode of a machine is not shown in the beginning. -/
theorem Output.opening_setMode
    (output : Output)
    (m : Machine)
    (mode : Mode) :
    output.opening (m.setMode mode) = output.opening m := by
  cases output <;> rfl

/- Nor is it in the end. -/
theorem Options.verdictLines_setMode
    (o : Options)
    (m : Machine)
    (mode : Mode)
    (outcome : Except Error Verdict) :
    o.verdictLines (m.setMode mode) outcome =
      o.verdictLines m outcome := by
  cases outcome with
  | error e => rfl
  | ok v =>
      unfold verdictLines
      cases o.output <;> rfl

/-
  Two calls that write in the same way do so for machines that
  differ in their mode only, and exit in the same way.
-/
theorem written_and_exit_of_setMode
    {o p : Options}
    {loaded : Except Error Description}
    {m : Machine}
    {mode : Mode}
    (hOutput : p.output = o.output)
    (hResult : (o.prepare loaded).result = .ok m)
    (hMode :
      (p.prepare loaded).result = .ok (m.setMode mode))
    (fuel : Nat) :
    p.written loaded fuel = o.written loaded fuel ∧
      (p.simulate loaded fuel).map
          (fun s => (s.stdout, s.exit)) =
        (o.simulate loaded fuel).map
          (fun s => (s.stdout, s.exit)) := by
  have hLines :
      ∀ last outcome,
        p.verdictLines (last.setMode mode) outcome =
          o.verdictLines last outcome := by
    intro last outcome
    rw [Options.verdictLines_setMode]
    unfold Options.verdictLines
    rw [hOutput]
  have hWritten :
      p.written loaded fuel = o.written loaded fuel := by
    unfold Options.written
    simp only [hResult, hMode, Machine.run_setMode, hLines,
      hOutput, Output.opening_setMode]
  refine ⟨hWritten, ?_⟩
  rw [simulate_eq, simulate_eq, hResult, hMode, hWritten]
  simp only [Machine.run_setMode, Option.map_map]
  rfl

------------------------------------------------------------
-- Giving Up And Warning
------------------------------------------------------------

/- Nothing is found in a description, and no action is lost. -/
structure Clean
    (d : Description) : Prop where
  findings : d.findings = []
  warnings : (Machine.ofDescription d).warnings = []

section Loaded

variable {o : Options}
variable {d : Description}

/-
  The warnings of a call that is not strict are about findings
  and then about lost actions; none comes from the run.
-/
theorem filter_warn_events
    (hStrict : o.strict = false)
    (hDescription : d.WellFormed)
    (fuel : Nat) :
    (o.events (.ok d) fuel).filter
        (fun e => decide (e.level = .warn)) =
      d.findings.map .finding ++
        (Machine.ofDescription d).warnings := by
  rcases exists_result_prepare hStrict hDescription with
    ⟨m, hOk⟩
  have hEvents :
      (o.prepare (.ok d)).events =
        ((Machine.ofDescription d).after
          (d.findings.map .finding)).events := by
    simp [Options.prepare, Options.build, hStrict]
  have hRun :
      (m.run fuel).events.filter
        (fun e => decide (e.level = .warn)) = [] := by
    rw [List.filter_eq_nil_iff]
    intro e hMem hWarn
    exact
      Run.level_ne_warn_of_mem_events hMem
        (of_decide_eq_true hWarn)
  have hFindings :
      (d.findings.map Event.finding).filter
          (fun e => decide (e.level = .warn)) =
        d.findings.map .finding := by
    rw [List.filter_eq_self]
    intro e hMem
    rcases List.mem_map.mp hMem with ⟨f, _hFound, rfl⟩
    rfl
  have hBuild :=
    Build.warnings_after (d.findings.map .finding)
      (Machine.ofDescription d)
  rw [hFindings] at hBuild
  unfold Options.events
  rw [hOk, hEvents, List.filter_append, hRun, List.append_nil]
  exact hBuild

/- So such a call warns if there is a finding or a lost action. -/
theorem exists_warn_mem_events_iff
    (hStrict : o.strict = false)
    (hDescription : d.WellFormed) :
    (∃ fuel, ∃ e ∈ o.events (.ok d) fuel, e.level = .warn) ↔
      ¬Clean d := by
  constructor
  · intro hWarns hClean
    rcases hWarns with ⟨fuel, e, hMem, hWarn⟩
    have hNone :=
      filter_warn_events hStrict hDescription fuel
    rw [hClean.findings, hClean.warnings] at hNone
    exact
      List.filter_eq_nil_iff.mp hNone e hMem
        (decide_eq_true hWarn)
  · intro hUnclean
    by_contra hQuiet
    -- The events of a run of no steps hold all warnings.
    have hNone :
        (o.events (.ok d) 0).filter
          (fun e => decide (e.level = .warn)) = [] := by
      rw [List.filter_eq_nil_iff]
      intro e hMem hWarn
      exact hQuiet ⟨0, e, hMem, of_decide_eq_true hWarn⟩
    rw [filter_warn_events hStrict hDescription,
      List.append_eq_nil_iff, List.map_eq_nil_iff] at hNone
    exact hUnclean ⟨hNone.1, hNone.2⟩

/- Without a finding the strict call makes a strict build. -/
theorem result_prepare_strict_of_findings_eq_nil
    (hStrict : o.strict = true)
    (hNone : d.findings = []) :
    (o.prepare (.ok d)).result =
      (Machine.buildIn .strict d).result.map
        fun m => m.setMaxSteps o.maxSteps := by
  rw [result_prepare_ok]
  unfold Options.build
  rw [if_pos hStrict, hNone]
  rfl

/- A strict call gives up if there is a finding or a lost action. -/
theorem exists_result_prepare_strict_eq_error
    (hStrict : o.strict = true)
    (hDescription : d.WellFormed)
    (hUnclean : ¬Clean d) :
    ∃ e, (o.prepare (.ok d)).result = .error e := by
  cases hFindings : d.findings with
  | cons f more =>
      refine ⟨.finding f, ?_⟩
      rw [result_prepare_ok]
      unfold Options.build
      rw [if_pos hStrict, hFindings]
      rfl
  | nil =>
      have hWarnings :
          (Machine.buildIn .overwrite d).warnings ≠ [] := by
        rw [hDescription.buildIn_overwrite]
        intro hNil
        exact hUnclean ⟨hFindings, hNil⟩
      rcases List.exists_cons_of_ne_nil hWarnings with
        ⟨w, more, hCons⟩
      rcases Machine.exists_of_warnings_eq_cons hCons with
        ⟨key, _hEvent, hConflict⟩
      refine ⟨.conflictingRule key, ?_⟩
      rw [result_prepare_strict_of_findings_eq_nil hStrict
        hFindings, hConflict]
      rfl

/-
  With neither, it prepares the machine that was built outside
  of strict mode, with a limit and in strict mode.
-/
theorem result_prepare_strict_eq_ok
    {m : Machine}
    (hStrict : o.strict = true)
    (hDescription : d.WellFormed)
    (hClean : Clean d)
    (hBuilt : (Machine.ofDescription d).result = .ok m) :
    (o.prepare (.ok d)).result =
      .ok ((m.setMaxSteps o.maxSteps).setMode .strict) := by
  have hWarnings := hClean.warnings
  rw [← hDescription.buildIn_overwrite] at hWarnings hBuilt
  rw [result_prepare_strict_of_findings_eq_nil hStrict
      hClean.findings,
    Machine.result_buildIn_strict_of_warnings_eq_nil hWarnings,
    hBuilt]
  rfl

/- So the strict call exits as for a failure to load unless all is clean. -/
theorem exists_exit_strict_eq_loadFailure_iff
    (hStrict : o.strict = true)
    (hDescription : d.WellFormed) :
    (∃ fuel s,
      o.simulate (.ok d) fuel = some s ∧
        s.exit = loadFailure) ↔
      ¬Clean d := by
  rw [exists_exit_eq_loadFailure_iff]
  constructor
  · intro hFails hClean
    rcases hFails with ⟨e, hError⟩
    rcases hDescription.exists_result_ofDescription with
      ⟨m, hBuilt⟩
    rw [result_prepare_strict_eq_ok hStrict hDescription hClean
      hBuilt] at hError
    cases hError
  · intro hUnclean
    exact
      exists_result_prepare_strict_eq_error hStrict
        hDescription hUnclean

end Loaded

/-
  A strict call makes errors of the warnings of the same call
  that is not strict, and does nothing else. If a description is
  loaded, the strict call exits with two exactly if the other one
  notes a warning: a finding, or an action that was lost. If the
  strict call does not exit with two, then after any number of
  steps both have written the same to standard output, and where
  one of them is over so is the other, with the same exit code.
  In a session that is over, that is all of standard output, and
  what was noted is logged to standard error only.
-/
theorem strict_makes_errors_of_warnings
    (o : Options)
    (files : String → Except FileFault ByteArray)
    (stdin : ByteArray)
    {d : Description}
    (hLoad : o.load files stdin = .ok d) :
    let loaded := o.load files stdin
    let strict : Options := { o with strict := true }
    let lenient : Options := { o with strict := false }
    let StrictFails :=
      ∃ fuel s,
        strict.simulate loaded fuel = some s ∧ s.exit = 2
    (StrictFails ↔
      ∃ fuel,
        ∃ e ∈ lenient.events loaded fuel, e.level = .warn) ∧
    (¬StrictFails →
      ∀ fuel,
        strict.written loaded fuel =
            lenient.written loaded fuel ∧
          (strict.simulate loaded fuel).map
              (fun s => (s.stdout, s.exit)) =
            (lenient.simulate loaded fuel).map
              (fun s => (s.stdout, s.exit))) ∧
    ∀ (p : Options) fuel s,
      p.simulate loaded fuel = some s →
        s.stdout = p.written loaded fuel ∧
          ∃ errors,
            s.stderr =
              p.log (p.events loaded fuel) ++ errors := by
  intro loaded strict lenient StrictFails
  have hDescription := wellFormed_of_load_eq_ok hLoad
  have hLoaded : loaded = .ok d := hLoad
  have hFails : StrictFails ↔ ¬Clean d := by
    unfold StrictFails
    rw [hLoaded]
    exact exists_exit_strict_eq_loadFailure_iff rfl hDescription
  refine ⟨?_, ?_, ?_⟩
  · rw [hFails, hLoaded]
    exact (exists_warn_mem_events_iff rfl hDescription).symm
  · intro hSucceeds
    have hClean : Clean d := by
      exact not_not.mp (mt hFails.mpr hSucceeds)
    rcases hDescription.exists_result_ofDescription with
      ⟨m, hBuilt⟩
    have hLenient :
        (lenient.prepare (.ok d)).result =
          .ok (m.setMaxSteps o.maxSteps) := by
      exact result_prepare_eq_ok rfl hBuilt
    have hStrict :
        (strict.prepare (.ok d)).result =
          .ok ((m.setMaxSteps o.maxSteps).setMode .strict) := by
      exact
        result_prepare_strict_eq_ok rfl hDescription hClean
          hBuilt
    rw [hLoaded]
    exact written_and_exit_of_setMode rfl hLenient hStrict
  · intro p fuel s hSession
    exact shown_of_simulate_eq_some hSession

/- A machine that walks over its input and overwrites it. -/
def walker
    (write : Symbol) : Description :=
  { name := "m"
    tapes := 1
    input := ['a']
    states := ["p", "q"]
    start := "p"
    accept := ["q"]
    mode := .overwrite
    rules :=
      [{ state := "p"
         read := ['a']
         nextState := "p"
         write := [write]
         moves := [.right] },
       { state := "p"
         read := [Symbol.blank]
         nextState := "q"
         write := [Symbol.blank]
         moves := [.stay] }] }

/- Its description as a text. -/
def walkerText
    (write : Char) : String :=
  "m,1\na\np,q\np\nq\np,a,p," ++ String.singleton write ++
    ",R\np,_,q,_,S"

/-
  A walker that writes a wildcard loses an action: the strict
  call gives up and the other one warns. One that writes what
  it reads is clean, and both calls accept alike.
-/
theorem strictness_of_walkerText :
    let o : Options := ⟨"-", .quiet, none, false, false⟩
    let strict : Options := { o with strict := true }
    let files : String → Except FileFault ByteArray :=
      fun _ => .error .missing
    let lossy := o.load files (walkerText '*').toUTF8
    let clean := o.load files (walkerText 'a').toUTF8
    ((∃ fuel s,
      strict.simulate lossy fuel = some s ∧ s.exit = 2) ∧
      ∃ fuel, ∃ e ∈ o.events lossy fuel, e.level = .warn) ∧
    (strict.simulate clean 3).map
        (fun s => (s.stdout, s.exit)) =
      some (["------------------\na is Accepted."], 0) := by
  intro o strict files lossy clean
  have hLossy : lossy = .ok (walker '*') := by
    unfold lossy
    rw [load_toUTF8 rfl]
    decide +kernel
  have hClean : clean = .ok (walker 'a') := by
    unfold clean
    rw [load_toUTF8 rfl]
    decide +kernel
  have hWarns :
      ∃ fuel, ∃ e ∈ o.events lossy fuel, e.level = .warn := by
    rw [hLossy]
    exact ⟨0, .overwritten ⟨"p", ['a']⟩, by decide, rfl⟩
  have hAccepts :
      (o.simulate clean 3).map
          (fun s => (s.stdout, s.exit)) =
        some (["------------------\na is Accepted."], 0) := by
    rw [hClean]
    decide +kernel
  rcases strict_makes_errors_of_warnings o files _ hLossy with
    ⟨hFails, _hSame, _hShown⟩
  rcases strict_makes_errors_of_warnings o files _ hClean with
    ⟨_hFails, hSame, _hShown⟩
  refine ⟨⟨hFails.mpr hWarns, hWarns⟩, ?_⟩
  have hBuilt : ∃ m, (strict.prepare clean).result = .ok m := by
    rw [hClean]
    exact ⟨_, rfl⟩
  rw [← hAccepts]
  refine (hSame ?_ 3).2
  intro hStrict
  rcases exists_exit_eq_loadFailure_iff.mp hStrict with
    ⟨e, hError⟩
  rcases hBuilt with ⟨m, hOk⟩
  cases hOk.symm.trans hError

end CommandLine

end MultiTape
