import MultiTape.Machine.Run
import MultiTape.Proofs.Table.Registration

/-
  This file defines the machines that can come about: a new
  machine, and whatever a call makes of one that came about
  before. It also defines the machine after a number of steps,
  which describes runs, and shows that every machine that can
  come about has a table that fits its tapes.

  Key definitions include:
    * `Machine.after?`
    * `Machine.Call`
    * `Machine.perform`
    * `Machine.Reachable`
    * `Machine.performAll`
    * `Machine.Fits`

  Main statements:
    * `Machine.step_eq_ok_iff`
    * `Machine.eq_of_after?_eq_some`
    * `Machine.after?_length_trace_run`
    * `Machine.run_related`
    * `Machine.Reachable.rec_on_steps`
    * `Machine.performAll_induction`
    * `Machine.Reachable.fits`
-/

namespace MultiTape

namespace Machine

------------------------------------------------------------
-- Single Steps
------------------------------------------------------------

/- The machine that an action leads to. -/
def take
    (m : Machine)
    (a : Action) : Machine :=
  { m with
    configuration := m.configuration.apply a
    steps := m.steps + 1 }

/- A step is taken exactly when there is an action for it. -/
theorem step_eq_ok_iff
    {m next : Machine}
    {s : Step} :
    m.step = .ok (next, s) ↔
      ∃ a,
        m.table.lookup m.state m.symbols = some a ∧
          next = m.take a ∧
          s = ⟨m.steps + 1, m.state, m.symbols, a.nextState⟩ := by
  unfold step
  cases hLookup : m.table.lookup m.state m.symbols with
  | none => simp
  | some a =>
      simp [take, @eq_comm _ next, @eq_comm _ s]

------------------------------------------------------------
-- Several Steps
------------------------------------------------------------

/- The machine after a number of steps, if they can be taken. -/
def after?
    (m : Machine) : Nat → Option Machine
  | 0 => some m
  | n + 1 =>
      match m.step with
      | .ok (next, _) => next.after? n
      | .error _ => none

@[simp]
theorem after?_zero
    (m : Machine) :
    m.after? 0 = some m :=
  rfl

/- After a first step there is one step less to take. -/
theorem after?_succ_of_step_eq_ok
    {m : Machine}
    {p : Machine × Step}
    (hStep : m.step = .ok p)
    (n : Nat) :
    m.after? (n + 1) = p.1.after? n := by
  simp [after?, hStep]

/- Without a first step there are no more. -/
theorem after?_succ_of_step_eq_error
    {m : Machine}
    {e : Error}
    (hStep : m.step = .error e)
    (n : Nat) :
    m.after? (n + 1) = none := by
  simp [after?, hStep]

/- A sequence of steps begins with a step. -/
theorem after?_succ_eq_some_iff
    {m last : Machine}
    {n : Nat} :
    m.after? (n + 1) = some last ↔
      ∃ next s, m.step = .ok (next, s) ∧
        next.after? n = some last := by
  cases hStep : m.step with
  | error e =>
      simp [after?_succ_of_step_eq_error hStep]
  | ok p =>
      rw [after?_succ_of_step_eq_ok hStep]
      constructor
      · intro hAfter
        exact ⟨p.1, p.2, rfl, hAfter⟩
      · intro hParts
        rcases hParts with ⟨next, s, hEq, hAfter⟩
        cases hEq
        exact hAfter

/- Steps can be taken on from where others led. -/
theorem after?_add_of_after?_eq_some
    {m c : Machine}
    {n : Nat}
    (hAfter : m.after? n = some c)
    (k : Nat) :
    m.after? (n + k) = c.after? k := by
  induction n generalizing m with
  | zero =>
      cases hAfter
      rw [Nat.zero_add]
  | succ n ih =>
      rcases after?_succ_eq_some_iff.mp hAfter with
        ⟨next, s, hStep, hRest⟩
      rw [Nat.add_right_comm,
        after?_succ_of_step_eq_ok hStep]
      exact ih hRest

/- Steps change the configuration and are counted. -/
theorem eq_of_after?_eq_some
    {m last : Machine}
    {n : Nat}
    (hAfter : m.after? n = some last) :
    last =
      { m with
        configuration := last.configuration
        steps := m.steps + n } := by
  induction n generalizing m with
  | zero =>
      cases hAfter
      rfl
  | succ n ih =>
      rcases after?_succ_eq_some_iff.mp hAfter with
        ⟨next, s, hStep, hRest⟩
      rcases step_eq_ok_iff.mp hStep with
        ⟨a, _hLookup, rfl, _hs⟩
      have hLast := ih hRest
      rw [hLast]
      simp only [take]
      congr 1
      omega

/- A run takes no other steps than the machine does. -/
theorem step_eq_ok_of_advance_eq_ok
    {m : Machine}
    {p : Machine × Step}
    (hAdvance : m.advance = .ok p) :
    m.step = .ok p := by
  unfold advance at hAdvance
  split at hAdvance
  · cases hAdvance
  · exact hAdvance

/- A run stops after as many steps as are in its trace. -/
theorem after?_length_trace_run
    (m : Machine)
    (fuel : Nat) :
    m.after? (m.run fuel).trace.length =
      some (m.run fuel).machine := by
  induction fuel generalizing m with
  | zero => rfl
  | succ fuel ih =>
      rw [run_succ]
      cases hAdvance : m.advance with
      | error e => rfl
      | ok p =>
          have hStep := step_eq_ok_of_advance_eq_ok hAdvance
          simp only
          split
          · exact after?_succ_of_step_eq_ok hStep 0
          · have hRest := ih p.1
            simp only [Run.after, List.length_cons]
            rw [after?_succ_of_step_eq_ok hStep]
            exact hRest

/-
  Every entry in the trace of a run is a step that the machine
  takes after some others, with the configuration that the step
  leads to.
-/
theorem exists_after?_of_mem_trace_run
    {m : Machine}
    {fuel : Nat}
    {entry : TraceEntry}
    (hMem : entry ∈ (m.run fuel).trace) :
    ∃ n before next,
      m.after? n = some before ∧
        before.step = .ok (next, entry.step) ∧
        entry.configuration = next.configuration := by
  induction fuel generalizing m with
  | zero => cases hMem
  | succ fuel ih =>
      rw [run_succ] at hMem
      cases hAdvance : m.advance with
      | error e =>
          rw [hAdvance] at hMem
          cases hMem
      | ok p =>
          have hStep := step_eq_ok_of_advance_eq_ok hAdvance
          have hParts :
              entry = ⟨p.2, p.1.configuration⟩ ∨
                entry ∈ (p.1.run fuel).trace := by
            simp only [hAdvance] at hMem
            split at hMem
            · exact Or.inl (List.mem_singleton.mp hMem)
            · exact List.mem_cons.mp hMem
          rcases hParts with rfl | hLater
          · exact ⟨0, m, p.1, rfl, hStep, rfl⟩
          · rcases ih hLater with
              ⟨n, before, next, hAfter, hNext, hLast⟩
            refine ⟨n + 1, before, next, ?_, hNext, hLast⟩
            rw [after?_succ_of_step_eq_ok hStep]
            exact hAfter

------------------------------------------------------------
-- Two Runs
------------------------------------------------------------

/-
  Two machines go through runs that correspond if they are
  related in a way that their steps keep: both take a step with
  entries that correspond, or none takes one and the runs end
  in ways that correspond.
-/
theorem run_related
    {R : Machine → Machine → Prop}
    (entry : TraceEntry → TraceEntry)
    (ending : Except Error Verdict → Except Error Verdict)
    (hAdvance :
      ∀ m m', R m m' →
        (∃ e e',
          m.advance = .error e ∧
            m'.advance = .error e' ∧
            stop e' = ending (stop e)) ∨
          ∃ next next' s s',
            m.advance = .ok (next, s) ∧
              m'.advance = .ok (next', s') ∧
              R next next' ∧
              ⟨s', next'.configuration⟩ =
                entry ⟨s, next.configuration⟩)
    (hBlank :
      ∀ m m', R m m' →
        (m'.configuration.AtBlank ↔ m.configuration.AtBlank))
    (hVerdict :
      ∀ m m', R m m' →
        .ok m'.verdict = ending (.ok m.verdict))
    {m m' : Machine}
    (hRelated : R m m')
    (fuel : Nat) :
    (m'.run fuel).outcome = (m.run fuel).outcome.map ending ∧
      (m'.run fuel).trace = (m.run fuel).trace.map entry ∧
      R (m.run fuel).machine (m'.run fuel).machine := by
  induction fuel generalizing m m' with
  | zero => exact ⟨rfl, rfl, hRelated⟩
  | succ fuel ih =>
      rw [run_succ, run_succ]
      rcases hAdvance m m' hRelated with
        ⟨e, e', hError, hError', hStop⟩ |
          ⟨next, next', s, s', hOk, hOk', hNext, hEntry⟩
      · rw [hError, hError']
        exact ⟨congrArg some hStop, rfl, hRelated⟩
      · rw [hOk, hOk']
        simp only [hBlank m m' hRelated]
        split
        · exact
            ⟨congrArg some (hVerdict next next' hNext),
              congrArg (fun x => [x]) hEntry, hNext⟩
        · rcases ih hNext with ⟨hOutcome, hTrace, hLast⟩
          refine ⟨hOutcome, ?_, hLast⟩
          simp only [Run.after, hTrace, hEntry, List.map_cons]

------------------------------------------------------------
-- Calls
------------------------------------------------------------

/- What may be done to a machine from outside. -/
inductive Call where
  | edit (e : Table.Edit)
  | setMaxSteps (limit : Option Nat)
  | step
  | run (fuel : Nat)
  | reset
  deriving DecidableEq, Repr

/- The machine after an edit of its table. -/
def edit
    (m : Machine) : Table.Edit → Machine
  | .register r =>
      match m.register r with
      | .ok (next, _) => next
      | .error _ => m
  | .extendAlphabet symbols => m.extendAlphabet symbols
  | .setMode mode => m.setMode mode

/-
  The machine after a call. A refused rule and a step without
  an action change nothing.
-/
def perform
    (m : Machine) : Call → Machine
  | .edit e => m.edit e
  | .setMaxSteps limit => m.setMaxSteps limit
  | .step =>
      match m.step with
      | .ok (next, _) => next
      | .error _ => m
  | .run fuel => (m.run fuel).machine
  | .reset => m.reset

/- An edit concerns the table only. -/
theorem edit_eq
    (m : Machine)
    (e : Table.Edit) :
    m.edit e = { m with table := m.table.edit e } := by
  cases e with
  | register r =>
      cases hRegister : m.table.register r with
      | error e =>
          rw [Table.edit_of_register_eq_error hRegister]
          simp [edit, register, hRegister, Except.map]
      | ok p =>
          rw [Table.edit_of_register_eq_ok hRegister]
          simp [edit, register, hRegister, Except.map]
  | extendAlphabet symbols => rfl
  | setMode mode => rfl

------------------------------------------------------------
-- Reachable Machines
------------------------------------------------------------

/- The machines that calls can make of a new one. -/
inductive Reachable : Machine → Prop where
  | create
      {name : String}
      {tapes : Nat}
      {input : List Symbol}
      {states : List State}
      {start : State}
      {accept : List State}
      {m : Machine}
      (hCreate :
        create name tapes input states start accept = .ok m) :
      Reachable m
  | perform
      {m : Machine}
      (hReachable : Reachable m)
      (call : Call) :
      Reachable (m.perform call)

/- Steps keep what a single step keeps. -/
theorem after?_induction
    {P : Machine → Prop}
    (hStep :
      ∀ m next s, P m → m.step = .ok (next, s) → P next)
    {m last : Machine}
    {n : Nat}
    (hAfter : m.after? n = some last)
    (hFirst : P m) :
    P last := by
  induction n generalizing m with
  | zero =>
      cases hAfter
      exact hFirst
  | succ n ih =>
      rcases after?_succ_eq_some_iff.mp hAfter with
        ⟨next, s, hNext, hRest⟩
      exact ih hRest (hStep m next s hFirst hNext)

/-
  A call keeps what is kept by limits, by single steps, by going
  back to the beginning and, if it is one, by the edit.
-/
theorem perform_induction
    {P : Machine → Prop}
    {call : Call}
    (hEdit :
      ∀ m e, call = .edit e → P m →
        P { m with table := m.table.edit e })
    (hLimit : ∀ m limit, P m → P (m.setMaxSteps limit))
    (hStep :
      ∀ m next s, P m → m.step = .ok (next, s) → P next)
    (hReset : ∀ m, P m → P m.reset)
    {m : Machine}
    (hFirst : P m) :
    P (m.perform call) := by
  cases call with
  | edit e =>
      change P (m.edit e)
      rw [edit_eq]
      exact hEdit m e rfl hFirst
  | setMaxSteps limit => exact hLimit m limit hFirst
  | step =>
      cases hNext : m.step with
      | error e => simpa [perform, hNext] using hFirst
      | ok p =>
          have hAfter := hStep m p.1 p.2 hFirst hNext
          simpa [perform, hNext] using hAfter
  | run fuel =>
      exact
        after?_induction hStep
          (after?_length_trace_run m fuel) hFirst
  | reset => exact hReset m hFirst

/-
  What holds of new machines and is kept by edits, by limits,
  by single steps and by going back to the beginning holds of
  every machine that can come about.
-/
theorem Reachable.rec_on_steps
    {P : Machine → Prop}
    (hCreate :
      ∀ name tapes input states start accept m,
        Machine.create name tapes input states start accept =
          .ok m → P m)
    (hEdit :
      ∀ m e, P m → P { m with table := m.table.edit e })
    (hLimit : ∀ m limit, P m → P (m.setMaxSteps limit))
    (hStep :
      ∀ m next s, P m → m.step = .ok (next, s) → P next)
    (hReset : ∀ m, P m → P m.reset)
    {m : Machine}
    (hReachable : Reachable m) :
    P m := by
  induction hReachable with
  | create hNew => exact hCreate _ _ _ _ _ _ _ hNew
  | perform _hBefore call ih =>
      exact
        perform_induction (fun m e _hCall => hEdit m e)
          hLimit hStep hReset ih

/- A step leads to a machine that can come about. -/
theorem Reachable.step
    {m next : Machine}
    {s : Step}
    (hReachable : m.Reachable)
    (hStep : m.step = .ok (next, s)) :
    next.Reachable := by
  have hCall := hReachable.perform .step
  simpa [Machine.perform, hStep] using hCall

------------------------------------------------------------
-- Calls In Order
------------------------------------------------------------

/- The machine after calls in order. -/
def performAll
    (m : Machine)
    (calls : List Call) : Machine :=
  calls.foldl perform m

/- Calls keep what each of them keeps. -/
theorem performAll_induction
    {P : Machine → Prop}
    {calls : List Call}
    (hEdit :
      ∀ m e, .edit e ∈ calls → P m →
        P { m with table := m.table.edit e })
    (hLimit : ∀ m limit, P m → P (m.setMaxSteps limit))
    (hStep :
      ∀ m next s, P m → m.step = .ok (next, s) → P next)
    (hReset : ∀ m, P m → P m.reset)
    {m : Machine}
    (hFirst : P m) :
    P (m.performAll calls) := by
  induction calls generalizing m with
  | nil => exact hFirst
  | cons call calls ih =>
      apply ih
      · intro m e hMem
        exact hEdit m e (List.mem_cons_of_mem call hMem)
      · refine perform_induction ?_ hLimit hStep hReset hFirst
        rintro m e rfl
        exact hEdit m e List.mem_cons_self

/- Calls lead to machines that can come about. -/
theorem Reachable.performAll
    {m : Machine}
    (hReachable : m.Reachable)
    (calls : List Call) :
    (m.performAll calls).Reachable := by
  induction calls generalizing m with
  | nil => exact hReachable
  | cons call calls ih => exact ih (hReachable.perform call)

/-
  A machine that copies its input onto the second tape, from
  right to left.
-/
def copier : Machine :=
  edit
    { name := "copy"
      input := ['a', 'b']
      states := ["copying"]
      start := "copying"
      accept := ["copying"]
      table := Table.ofSymbols 2 ['a', 'b']
      maxSteps := none
      configuration :=
        Configuration.initial 2 "copying" ['a', 'b']
      steps := 0 }
    (.register
      { state := "copying"
        read := [Symbol.wildcard, Symbol.blank]
        nextState := "copying"
        write := [Symbol.wildcard, Symbol.wildcard]
        moves := [.right, .left] })

theorem reachable_copier :
    copier.Reachable := by
  have hNew :=
    @Reachable.create "copy" 2 ['a', 'b'] ["copying"]
      "copying" ["copying"] _ rfl
  exact hNew.perform (.edit _)

------------------------------------------------------------
-- Machines That Fit
------------------------------------------------------------

/- The table fits, and it is for as many tapes as there are. -/
structure Fits
    (m : Machine) : Prop where
  table : m.table.Fits
  length : m.configuration.tapes.length = m.table.tapes

/- A step keeps the number of tapes. -/
theorem length_tapes_of_step_eq_ok
    {m next : Machine}
    {s : Step}
    (hStep : m.step = .ok (next, s)) :
    next.configuration.tapes.length =
      m.configuration.tapes.length := by
  rcases step_eq_ok_iff.mp hStep with
    ⟨a, _hLookup, rfl, _hs⟩
  simp [take, Configuration.tapes_apply]

/- A step keeps a machine fit. -/
theorem Fits.step
    {m next : Machine}
    {s : Step}
    (hFits : m.Fits)
    (hStep : m.step = .ok (next, s)) :
    next.Fits := by
  have hLength := length_tapes_of_step_eq_ok hStep
  rcases step_eq_ok_iff.mp hStep with
    ⟨a, _hLookup, rfl, _hs⟩
  exact ⟨hFits.table, hLength.trans hFits.length⟩

/- Every machine that can come about fits. -/
theorem Reachable.fits
    {m : Machine}
    (hReachable : Reachable m) :
    m.Fits := by
  refine
    hReachable.rec_on_steps ?_ ?_ ?_ ?_ ?_
  · intro name tapes input states start accept m hNew
    unfold Machine.create at hNew
    split at hNew
    · cases hNew
    · next hTapes =>
        cases hNew
        refine ⟨Table.fits_ofSymbols tapes input, ?_⟩
        apply Configuration.length_tapes_initial
        exact Nat.pos_of_ne_zero fun h => hTapes (Or.inl h)
  · intro m e hFits
    refine ⟨hFits.table.edit e, ?_⟩
    simpa using hFits.length
  · intro m limit hFits
    exact ⟨hFits.table, hFits.length⟩
  · intro m next s hFits hStep
    exact hFits.step hStep
  · intro m hFits
    have hPositive : 0 < m.configuration.tapes.length :=
      Nat.succ_pos _
    have hLength :=
      @Configuration.length_tapes_initial
        m.configuration.tapes.length m.start m.input
        hPositive
    exact ⟨hFits.table, hLength.trans hFits.length⟩

end Machine

end MultiTape
