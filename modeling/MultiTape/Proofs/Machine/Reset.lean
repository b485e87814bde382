import MultiTape.Proofs.Machine.Budget

/-
  This file shows that setting up a machine and letting it work
  do not get in each other's way. Going back to the beginning
  undoes all steps and runs, and leaves what the calls that set
  up the machine would have made of it alone; what a rule is
  answered does not depend on where the machine stands.

  Key definitions include:
    * `Machine.Call.SetsUp`
    * `Machine.settings`
    * `Machine.registrations`

  Main statements:
    * `Machine.reset_of_after?_eq_some`
    * `Machine.reset_performAll`
    * `Machine.registrations_settings`
    * `Machine.reset_forgets_steps_and_runs`
-/

namespace MultiTape

namespace Machine

------------------------------------------------------------
-- Two Kinds Of Calls
------------------------------------------------------------

/- The call sets up the machine and does not let it work. -/
def Call.SetsUp : Call → Prop
  | .edit _ => True
  | .setMaxSteps _ => True
  | .step => False
  | .run _ => False
  | .reset => False

instance : DecidablePred Call.SetsUp
  | .edit _ => .isTrue trivial
  | .setMaxSteps _ => .isTrue trivial
  | .step => .isFalse id
  | .run _ => .isFalse id
  | .reset => .isFalse id

/- The calls that set up the machine, in their order. -/
def settings
    (calls : List Call) : List Call :=
  calls.filter fun call => decide call.SetsUp

/- A call that sets up the machine is kept. -/
theorem settings_cons_of_setsUp
    {call : Call}
    (hSetsUp : call.SetsUp)
    (calls : List Call) :
    settings (call :: calls) = call :: settings calls :=
  List.filter_cons_of_pos (decide_eq_true hSetsUp)

/- Another call is left out. -/
theorem settings_cons_of_not_setsUp
    {call : Call}
    (hWorks : ¬ call.SetsUp)
    (calls : List Call) :
    settings (call :: calls) = settings calls :=
  List.filter_cons_of_neg (by simpa using hWorks)

/- What a call that registers a rule is answered. -/
def registration?
    (m : Machine) :
    Call → Option (Except Error Table.Registration)
  | .edit (.register r) => some ((m.register r).map Prod.snd)
  | _ => none

/- What the calls that register rules are answered, in order. -/
def registrations :
    Machine → List Call →
      List (Except Error Table.Registration)
  | _, [] => []
  | m, call :: calls =>
      (m.registration? call).toList ++
        (m.perform call).registrations calls

------------------------------------------------------------
-- Work Is Undone
------------------------------------------------------------

/-
  Of all that changes while a machine works, going back keeps
  only the number of tapes.
-/
theorem reset_of_length_eq
    (m : Machine)
    (c : Configuration)
    (steps : Nat)
    (hLength :
      c.tapes.length = m.configuration.tapes.length) :
    { m with configuration := c, steps := steps }.reset =
      m.reset := by
  unfold reset
  simp only [hLength]

/- Going back twice is going back once. -/
@[simp]
theorem reset_reset
    (m : Machine) :
    m.reset.reset = m.reset := by
  apply m.reset_of_length_eq
  exact
    Configuration.length_tapes_initial
      (Nat.succ_pos m.configuration.work.length)

/- Going back undoes a step. -/
theorem reset_of_step_eq_ok
    {m next : Machine}
    {s : Step}
    (hStep : m.step = .ok (next, s)) :
    next.reset = m.reset := by
  have hLength := length_tapes_of_step_eq_ok hStep
  rcases step_eq_ok_iff.mp hStep with
    ⟨a, _hLookup, rfl, _hs⟩
  exact m.reset_of_length_eq _ _ hLength

/- Going back undoes any number of steps. -/
theorem reset_of_after?_eq_some
    {m last : Machine}
    {n : Nat}
    (hAfter : m.after? n = some last) :
    last.reset = m.reset := by
  refine
    after?_induction (P := fun c => c.reset = m.reset) ?_
      hAfter rfl
  intro c next s hSame hStep
  exact (reset_of_step_eq_ok hStep).trans hSame

/- Going back undoes what a call does that lets the machine work. -/
theorem reset_perform_of_not_setsUp
    {call : Call}
    (hWorks : ¬ call.SetsUp)
    (m : Machine) :
    (m.perform call).reset = m.reset := by
  cases call with
  | edit e => exact absurd trivial hWorks
  | setMaxSteps limit => exact absurd trivial hWorks
  | step =>
      cases hStep : m.step with
      | error e => simp [perform, hStep]
      | ok p =>
          simpa [perform, hStep] using
            reset_of_step_eq_ok hStep
  | run fuel =>
      exact
        reset_of_after?_eq_some
          (after?_length_trace_run m fuel)
  | reset => exact reset_reset m

/- A call that sets up the machine does so in the beginning too. -/
theorem reset_perform_of_setsUp
    {call : Call}
    (hSetsUp : call.SetsUp)
    (m : Machine) :
    (m.perform call).reset = m.reset.perform call := by
  cases call with
  | edit e =>
      change (m.edit e).reset = m.reset.edit e
      rw [edit_eq, edit_eq]
      rfl
  | setMaxSteps limit => rfl
  | step => exact hSetsUp.elim
  | run fuel => exact hSetsUp.elim
  | reset => exact hSetsUp.elim

/-
  Going back leaves what the calls that set up the machine make
  of it when it is in the beginning all the time.
-/
theorem reset_performAll
    (m : Machine)
    (calls : List Call) :
    (m.performAll calls).reset =
      m.reset.performAll (settings calls) := by
  -- Only what going back makes of the machine is carried along,
  -- so it does not matter where the calls so far have led.
  induction calls generalizing m with
  | nil => rfl
  | cons call calls ih =>
      have hRest := ih (m.perform call)
      by_cases hSetsUp : call.SetsUp
      · rw [reset_perform_of_setsUp hSetsUp] at hRest
        rw [settings_cons_of_setsUp hSetsUp]
        exact hRest
      · rw [reset_perform_of_not_setsUp hSetsUp] at hRest
        rw [settings_cons_of_not_setsUp hSetsUp]
        exact hRest

/- A new machine is in the beginning. -/
theorem reset_of_create_eq_ok
    {name : String}
    {tapes : Nat}
    {input : List Symbol}
    {states : List State}
    {start : State}
    {accept : List State}
    {m : Machine}
    (hCreate :
      create name tapes input states start accept = .ok m) :
    m.reset = m := by
  unfold create at hCreate
  split at hCreate
  · cases hCreate
  · next hTapes =>
      cases hCreate
      have hPositive : 0 < tapes :=
        Nat.pos_of_ne_zero fun hZero => hTapes (Or.inl hZero)
      unfold reset
      simp only
      rw [Configuration.length_tapes_initial hPositive]

------------------------------------------------------------
-- Rules Are Answered By The Table
------------------------------------------------------------

/- What a rule is answered does not depend on steps. -/
theorem registration?_reset
    (m : Machine)
    (call : Call) :
    m.reset.registration? call = m.registration? call := by
  cases call with
  | edit e =>
      cases e with
      | register r =>
          simp only [registration?, register, reset]
          cases m.table.register r with
          | error e => rfl
          | ok p => rfl
      | extendAlphabet symbols => rfl
      | setMode mode => rfl
  | setMaxSteps limit => rfl
  | step => rfl
  | run fuel => rfl
  | reset => rfl

/- No rule is registered while the machine works. -/
theorem registration?_of_not_setsUp
    {call : Call}
    (hWorks : ¬ call.SetsUp)
    (m : Machine) :
    m.registration? call = none := by
  cases call with
  | edit e => exact absurd trivial hWorks
  | setMaxSteps limit => rfl
  | step => rfl
  | run fuel => rfl
  | reset => rfl

/-
  Rules are answered as they are when the machine is in the
  beginning all the time.
-/
theorem registrations_settings
    (m : Machine)
    (calls : List Call) :
    m.reset.registrations (settings calls) =
      m.registrations calls := by
  induction calls generalizing m with
  | nil => rfl
  | cons call calls ih =>
      have hRest := ih (m.perform call)
      by_cases hSetsUp : call.SetsUp
      · rw [reset_perform_of_setsUp hSetsUp] at hRest
        rw [settings_cons_of_setsUp hSetsUp, registrations,
          registrations, hRest, registration?_reset]
      · rw [reset_perform_of_not_setsUp hSetsUp] at hRest
        rw [settings_cons_of_not_setsUp hSetsUp,
          registrations, hRest,
          registration?_of_not_setsUp hSetsUp]
        rfl

------------------------------------------------------------
-- Going Back To The Beginning
------------------------------------------------------------

/-
  Whatever was done to a new machine, going back to the
  beginning makes it the machine that only the calls that set
  it up lead to, and its rules were answered as they are then.
  So it runs the same way again: after a run from there and
  going back it is the same machine, whose run takes the same
  steps and comes to the same end.
-/
theorem reset_forgets_steps_and_runs
    {name : String}
    {tapes : Nat}
    {input : List Symbol}
    {states : List State}
    {start : State}
    {accept : List State}
    {first : Machine}
    (hCreate :
      create name tapes input states start accept = .ok first)
    (calls : List Call) :
    let all := calls ++ [.reset]
    let m := first.performAll all
    m = first.performAll (settings all) ∧
      first.registrations all =
        first.registrations (settings all) ∧
      ∀ trace result last,
        m.RunsTo trace result last →
          last.reset = m ∧
            last.reset.RunsTo trace result last := by
  intro all m
  have hFirst := reset_of_create_eq_ok hCreate
  have hReset : m = (first.performAll calls).reset := by
    change (calls ++ [Call.reset]).foldl perform first = _
    rw [List.foldl_append]
    rfl
  have hSame : m.reset = m := by
    rw [hReset, reset_reset]
  refine ⟨?_, ?_, ?_⟩
  · rw [← hSame, reset_performAll, hFirst]
  · rw [← registrations_settings, hFirst]
  · intro trace result last hRuns
    rcases hRuns with ⟨fuel, hRun⟩
    have hAfter := after?_length_trace_run m fuel
    rw [hRun] at hAfter
    have hBack : last.reset = m :=
      (reset_of_after?_eq_some hAfter).trans hSame
    rw [hBack]
    exact ⟨rfl, fuel, hRun⟩

/-
  Calls that set up a machine between steps and runs. Of the
  rules the first is accepted, the second does not fit, and the
  third is refused in strict mode.
-/
def callsBetweenSteps : List Call :=
  [.edit
      (.register
        { state := "p"
          read := [Symbol.wildcard, Symbol.blank]
          nextState := "p"
          write := [Symbol.wildcard, Symbol.wildcard]
          moves := [.right, .left] }),
    .step,
    .edit (.extendAlphabet ['x']),
    .edit
      (.register
        { state := "p"
          read := ['x']
          nextState := "p"
          write := ['x', 'x']
          moves := [.stay, .stay] }),
    .edit (.setMode .strict),
    .run 5,
    .edit
      (.register
        { state := "p"
          read := ['a', Symbol.blank]
          nextState := "q"
          write := ['a', 'a']
          moves := [.right, .left] }),
    .setMaxSteps (some 2),
    .run 5]

/-
  After three steps the machine goes back to the beginning, and
  its run is cut short after two steps, again and again.
-/
theorem reset_after_callsBetweenSteps :
    ∃ first,
      create "m" 2 ['a', 'b'] ["p"] "p" ["p"] = .ok first ∧
        (first.performAll callsBetweenSteps).steps = 3 ∧
        let m :=
          first.performAll (callsBetweenSteps ++ [.reset])
        m =
            first.performAll
              (settings (callsBetweenSteps ++ [.reset])) ∧
          first.registrations
              (settings (callsBetweenSteps ++ [.reset])) =
            [.ok ⟨3, []⟩,
              .error (.malformedRule "p" .read 1 2),
              .error (.conflictingRule ⟨"p", ['a', '_']⟩)] ∧
          ∃ trace last,
            m.RunsTo trace (.error (.stepLimit 2)) last ∧
              trace.length = 2 ∧
              last.reset.RunsTo trace (.error (.stepLimit 2))
                last := by
  have hCreate :
      create "m" 2 ['a', 'b'] ["p"] "p" ["p"] = .ok _ :=
    rfl
  rcases
      reset_forgets_steps_and_runs hCreate
        callsBetweenSteps with
    ⟨hSame, hAnswers, hAgain⟩
  refine ⟨_, hCreate, by decide, hSame, ?_, ?_⟩
  · rw [← hAnswers]
    rfl
  · refine ⟨_, _, ⟨3, rfl⟩, rfl, ?_⟩
    exact (hAgain _ _ _ ⟨3, rfl⟩).2

end Machine

end MultiTape
