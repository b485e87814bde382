import MultiTape.CommandLine.Session
import MultiTape.Files.Load
import MultiTape.Proofs.Description.Buildable

/-
  This file says when the program gives up before a machine
  runs. Unless overwritten actions are errors, that happens
  only if there is no description: none can be read, or what
  was read is none.

  Key definitions include:
    * `CommandLine.Options.text?`
    * `CommandLine.Options.load`

  Main statements:
    * `CommandLine.load_eq_ok_iff`
    * `CommandLine.exists_exit_eq_loadFailure_iff_load`
    * `CommandLine.accepted_texts_are_buildable`
-/

namespace MultiTape.CommandLine

open MultiTape.Description
  (parse decode ofFile ofStandardInput readRule readRuleAt?)

------------------------------------------------------------
-- Loading
------------------------------------------------------------

/-
  The text of the description that the options name. There is
  none if the file or the standard input cannot be read, or if
  it is no valid text.
-/
def Options.text?
    (o : Options)
    (files : String → Except FileFault ByteArray)
    (stdin : ByteArray) : Option (List Char) := do
  let bytes ←
    if o.description = "-" then
      some stdin
    else
      (files o.description).toOption
  (String.fromUTF8? bytes).map String.toList

/- The description that the options name, as it is loaded. -/
def Options.load
    (o : Options)
    (files : String → Except FileFault ByteArray)
    (stdin : ByteArray) : Except Error Description :=
  if o.description = "-" then
    ofStandardInput stdin
  else
    ofFile o.description (files o.description)

/- Bytes are decoded if they are a text that is accepted. -/
theorem decode_eq_ok_iff
    {bytes : ByteArray}
    {e : Error}
    {d : Description} :
    decode bytes e = .ok d ↔
      ∃ text,
        (String.fromUTF8? bytes).map String.toList =
            some text ∧
          parse text = .ok d := by
  unfold decode
  cases String.fromUTF8? bytes with
  | none => simp
  | some text => simp

/- A description is loaded if its text is read and accepted. -/
theorem load_eq_ok_iff
    {o : Options}
    {files : String → Except FileFault ByteArray}
    {stdin : ByteArray}
    {d : Description} :
    o.load files stdin = .ok d ↔
      ∃ text,
        o.text? files stdin = some text ∧
          parse text = .ok d := by
  unfold Options.load Options.text?
  split
  · exact decode_eq_ok_iff
  · cases files o.description with
    | error fault => simp [ofFile, Except.toOption]
    | ok bytes => exact decode_eq_ok_iff

/- A text on standard input is read as it is. -/
theorem load_toUTF8
    {o : Options}
    (hInput : o.description = "-")
    (files : String → Except FileFault ByteArray)
    (text : String) :
    o.load files text.toUTF8 = parse text.toList := by
  have hText : String.fromUTF8? text.toUTF8 = some text := by
    exact dif_pos text.isValidUTF8
  unfold Options.load ofStandardInput decode
  rw [if_pos hInput, hText]

/- What is loaded is well formed. -/
theorem wellFormed_of_load_eq_ok
    {o : Options}
    {files : String → Except FileFault ByteArray}
    {stdin : ByteArray}
    {d : Description}
    (hLoad : o.load files stdin = .ok d) :
    d.WellFormed := by
  rcases load_eq_ok_iff.mp hLoad with ⟨text, _hText, hParse⟩
  exact Description.wellFormed_of_parse_eq_ok hParse

/- Loading fails without a text, or with one that is refused. -/
theorem exists_load_eq_error_iff
    {o : Options}
    {files : String → Except FileFault ByteArray}
    {stdin : ByteArray} :
    (∃ e, o.load files stdin = .error e) ↔
      o.text? files stdin = none ∨
        ∃ text e,
          o.text? files stdin = some text ∧
            parse text = .error e := by
  constructor
  · intro hFails
    rcases hFails with ⟨e, hError⟩
    cases hText : o.text? files stdin with
    | none => exact Or.inl rfl
    | some text =>
        cases hParse : parse text with
        | error e' => exact Or.inr ⟨text, e', rfl, hParse⟩
        | ok d =>
            have hOk : o.load files stdin = .ok d := by
              exact load_eq_ok_iff.mpr ⟨text, hText, hParse⟩
            rw [hError] at hOk
            cases hOk
  · intro hNone
    cases hLoad : o.load files stdin with
    | error e => exact ⟨e, rfl⟩
    | ok d =>
        rcases load_eq_ok_iff.mp hLoad with
          ⟨text, hText, hParse⟩
        rcases hNone with hNone | ⟨text', e, hText', hError⟩
        · rw [hText] at hNone
          cases hNone
        · rw [hText] at hText'
          cases hText'
          rw [hParse] at hError
          cases hError

------------------------------------------------------------
-- Sessions
------------------------------------------------------------

/- What is prepared is what was built, with a limit. -/
theorem result_prepare_ok
    (o : Options)
    (d : Description) :
    (o.prepare (.ok d)).result =
      (o.build d).result.map
        fun m => m.setMaxSteps o.maxSteps :=
  rfl

/- Outside of strict mode that is the machine of the description. -/
theorem result_prepare_eq_ok
    {o : Options}
    {d : Description}
    {m : Machine}
    (hStrict : o.strict = false)
    (hBuilt : (Machine.ofDescription d).result = .ok m) :
    (o.prepare (.ok d)).result =
      .ok (m.setMaxSteps o.maxSteps) := by
  rw [result_prepare_ok]
  unfold Options.build Build.after
  rw [if_neg (Bool.eq_false_iff.mp hStrict), hBuilt]
  rfl

/- A machine is prepared from every well formed description. -/
theorem exists_result_prepare
    {o : Options}
    {d : Description}
    (hStrict : o.strict = false)
    (hDescription : d.WellFormed) :
    ∃ m, (o.prepare (.ok d)).result = .ok m := by
  rcases hDescription.exists_result_ofDescription with
    ⟨m, hBuilt⟩
  exact ⟨_, result_prepare_eq_ok hStrict hBuilt⟩

/- A run that comes to an end does not exit as a failure to load. -/
theorem exitCode_lt_loadFailure
    (outcome : Except Error Verdict) :
    exitCode outcome < loadFailure := by
  unfold exitCode loadFailure
  split <;> omega

/- The program exits as for a failure to load if nothing is prepared. -/
theorem exists_exit_eq_loadFailure_iff
    {o : Options}
    {loaded : Except Error Description} :
    (∃ fuel s,
      o.simulate loaded fuel = some s ∧
        s.exit = loadFailure) ↔
      ∃ e, (o.prepare loaded).result = .error e := by
  unfold Options.simulate
  cases hResult : (o.prepare loaded).result with
  | error e =>
      constructor
      · intro _hExit
        exact ⟨e, rfl⟩
      · intro _hError
        simp only [hResult]
        exact ⟨0, _, rfl, rfl⟩
  | ok m =>
      constructor
      · intro hExit
        rcases hExit with ⟨fuel, s, hSession, hCode⟩
        simp only [hResult] at hSession
        rcases Option.map_eq_some_iff.mp hSession with
          ⟨outcome, _hOutcome, rfl⟩
        exact
          absurd hCode
            (Nat.ne_of_lt (exitCode_lt_loadFailure outcome))
      · intro hError
        rcases hError with ⟨e, hError⟩
        cases hError

/-
  Where overwritten actions are no errors, the program exits as
  for a failure to load exactly if loading fails.
-/
theorem exists_exit_eq_loadFailure_iff_load
    {o : Options}
    (hStrict : o.strict = false)
    (files : String → Except FileFault ByteArray)
    (stdin : ByteArray) :
    (∃ fuel s,
      o.simulate (o.load files stdin) fuel = some s ∧
        s.exit = loadFailure) ↔
      ∃ e, o.load files stdin = .error e := by
  rw [exists_exit_eq_loadFailure_iff]
  cases hLoad : o.load files stdin with
  | error e => simp [Options.prepare]
  | ok d =>
      have hDescription := wellFormed_of_load_eq_ok hLoad
      rcases exists_result_prepare hStrict hDescription with
        ⟨m, hOk⟩
      simp [hOk]

------------------------------------------------------------
-- Accepted Texts
------------------------------------------------------------

/-
  Every text that is accepted gives a machine that can be
  built. The description is well formed, so that no rule is
  found to lack entries, the build succeeds, and the strict
  build can only fail with a conflict. Hence a program that was
  called properly and not strictly exits with two exactly if no
  text could be read or the text is refused. The reader of
  rules never leaves the range of a record.
-/
theorem accepted_texts_are_buildable :
    (∀ text d,
      parse text = .ok d →
        d.WellFormed ∧
        (∀ state,
          .inconsistentArity state ∉ d.findings) ∧
        (∃ m, (Machine.ofDescription d).result = .ok m) ∧
        ((∃ m,
          (Machine.ofDescription
            { d with mode := .strict }).result = .ok m) ∨
        ∃ key,
          (Machine.ofDescription
            { d with mode := .strict }).result =
              .error (.conflictingRule key))) ∧
    (∀ (o : Options) files stdin,
      o.strict = false →
        ((∃ fuel s,
          o.simulate (o.load files stdin) fuel = some s ∧
            s.exit = 2) ↔
          o.text? files stdin = none ∨
            ∃ text e,
              o.text? files stdin = some text ∧
                parse text = .error e)) ∧
    ∀ tapes row,
      readRuleAt? tapes row = some (readRule tapes row) := by
  refine ⟨?_, ?_, Description.readRuleAt?_eq_some⟩
  · intro text d hParse
    have hDescription :=
      Description.wellFormed_of_parse_eq_ok hParse
    exact
      ⟨hDescription, hDescription.inconsistentArity_not_mem,
        hDescription.exists_result_ofDescription,
        hDescription.result_strict⟩
  · intro o files stdin hStrict
    have hExit :=
      exists_exit_eq_loadFailure_iff_load hStrict files stdin
    rw [exists_load_eq_error_iff] at hExit
    exact hExit

/- A machine with a rule that writes a wildcard and reads none. -/
def selfConflicting : Description :=
  { name := "m"
    tapes := 1
    input := ['a']
    states := ["p", "q"]
    start := "p"
    accept := ["q"]
    mode := .overwrite
    rules :=
      [{ state := "p"
         read := ['a']
         nextState := "q"
         write := [Symbol.wildcard]
         moves := [.right] }] }

/-
  Its text is accepted and the machine can be built, but not
  strictly. If the file that should hold the text is missing,
  the program exits with two.
-/
theorem selfConflicting_is_buildable :
    parse "m,1\na\np,q\np\nq\np,a,q,*,R".toList =
        .ok selfConflicting ∧
      selfConflicting.WellFormed ∧
      (∃ m,
        (Machine.ofDescription selfConflicting).result =
          .ok m) ∧
      (Machine.ofDescription
        { selfConflicting with mode := .strict }).result =
          .error (.conflictingRule ⟨"p", ['a']⟩) ∧
      ∃ fuel s,
        let o : Options :=
          ⟨"m.csv", .quiet, none, false, false⟩
        o.simulate
            (o.load (fun _ => .error .missing)
              ByteArray.empty)
            fuel =
          some s ∧ s.exit = 2 := by
  have hParse :
      parse "m,1\na\np,q\np\nq\np,a,q,*,R".toList =
        .ok selfConflicting := by
    decide +kernel
  rcases accepted_texts_are_buildable with
    ⟨hAccepted, hExit, _hPositions⟩
  rcases hAccepted _ _ hParse with
    ⟨hDescription, _hFindings, hBuilt, _hStrict⟩
  refine ⟨hParse, hDescription, hBuilt, rfl, ?_⟩
  exact (hExit _ _ _ rfl).mpr (Or.inl rfl)

end MultiTape.CommandLine
