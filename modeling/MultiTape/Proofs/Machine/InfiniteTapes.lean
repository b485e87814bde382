import MultiTape.Proofs.Machine.Reachability
import MultiTape.Tape.View
import Mathlib.Data.List.OfFn
import Mathlib.Logic.Function.Basic

/-
  This file defines the machine of the textbooks, whose tapes
  are functions on the integers, and shows that a machine which
  keeps finitely many cells behaves as that machine does, step
  by step and on every tape.

  Key definitions include:
    * `InfiniteConfiguration`
    * `InfiniteConfiguration.initial`
    * `InfiniteConfiguration.after?`
    * `Table.program`
    * `Configuration.Represents`
    * `Action.ActsOn`

  Main statements:
    * `Machine.actsOn_of_lookup_eq_some`
    * `Machine.after?_rel`
    * `Machine.step_refines_infinite_tapes`
-/

namespace MultiTape

------------------------------------------------------------
-- Infinite Tapes
------------------------------------------------------------

/-
  A state and a number of tapes, each of which has a symbol at
  every integer distance from its head.
-/
structure InfiniteConfiguration (k : Nat) where
  state : State
  tapes : Fin k → Int → Symbol

/- What is done on every tape in one step. -/
structure Instruction (k : Nat) where
  nextState : State
  write : Fin k → Symbol
  moves : Fin k → Move

/- What to do in a state with these symbols under the heads. -/
abbrev Program (k : Nat) :=
  State → (Fin k → Symbol) → Option (Instruction k)

namespace InfiniteConfiguration

variable {k : Nat}

/- The input stands from the head on to the right of the first tape. -/
def initial
    (k : Nat)
    (start : State)
    (input : List Symbol) : InfiniteConfiguration k where
  state := start
  tapes := fun j i =>
    if j.val = 0 ∧ 0 ≤ i then
      input.getD i.toNat Symbol.blank
    else
      Symbol.blank

/- Write at the head of every tape, then re-centre the tape. -/
def apply
    (c : InfiniteConfiguration k)
    (a : Instruction k) : InfiniteConfiguration k where
  state := a.nextState
  tapes := fun j i =>
    Function.update (c.tapes j) 0 (a.write j)
      (i + (a.moves j).offset)

/- One step of a program. -/
def step?
    (p : Program k)
    (c : InfiniteConfiguration k) :
    Option (InfiniteConfiguration k) :=
  (p c.state fun j => c.tapes j 0).map c.apply

/- The configuration after a number of steps. -/
def after?
    (p : Program k)
    (c : InfiniteConfiguration k) :
    Nat → Option (InfiniteConfiguration k)
  | 0 => some c
  | n + 1 => (c.step? p).bind fun next => next.after? p n

end InfiniteConfiguration

/- The program of a table whose actions fit. -/
def Table.program
    (t : Table) : Program t.tapes :=
  fun state symbols =>
    (t.lookup state (List.ofFn symbols)).map fun a =>
      { nextState := a.nextState
        write := fun j => a.write.getD j Symbol.blank
        moves := fun j => a.moves.getD j .stay }

------------------------------------------------------------
-- Representation
------------------------------------------------------------

/- The same state, and the same symbols around every head. -/
def Configuration.Represents
    {k : Nat}
    (c : Configuration)
    (d : InfiniteConfiguration k) : Prop :=
  c.state = d.state ∧
    c.tapes.map Tape.view = List.ofFn d.tapes

/-
  The tapes after an action: on every tape the symbol under the
  head is replaced, and the head is moved.
-/
def Action.ActsOn
    (a : Action)
    (before after : List Tape) : Prop :=
  after.length = before.length ∧
    ∀ (j : Nat) (t : Tape), before[j]? = some t →
      ∃ (s : Symbol) (d : Move) (t' : Tape),
        a.write[j]? = some s ∧
          a.moves[j]? = some d ∧
          after[j]? = some t' ∧
          ∀ i,
            t'.view i =
              Function.update t.view 0 s (i + d.offset)

/- Writing and moving, seen from the head. -/
theorem Tape.view_act
    (t : Tape)
    (s : Symbol)
    (d : Move)
    (i : Int) :
    (t.act s d).view i =
      Function.update t.view 0 s (i + d.offset) := by
  rw [Tape.act, Tape.view_shift, Tape.view_write,
    Function.update_apply]

/- Every tape is acted on that has a symbol and a movement. -/
theorem Tape.getElem?_actAll
    {ts : List Tape}
    {ss : List Symbol}
    {ds : List Move}
    {j : Nat}
    {t : Tape}
    {s : Symbol}
    {d : Move}
    (hTape : ts[j]? = some t)
    (hSymbol : ss[j]? = some s)
    (hMove : ds[j]? = some d) :
    (Tape.actAll ts ss ds)[j]? = some (t.act s d) := by
  fun_induction Tape.actAll ts ss ds generalizing j with
  | case1 t' ts s' ss d' ds ih =>
      cases j with
      | zero =>
          cases hTape
          cases hSymbol
          cases hMove
          rfl
      | succ j => exact ih hTape hSymbol hMove
  | case2 ts ss ds hShort =>
      cases ts with
      | nil => cases hTape
      | cons t' ts =>
          cases ss with
          | nil => cases hSymbol
          | cons s' ss =>
              cases ds with
              | nil => cases hMove
              | cons d' ds =>
                  exact
                    absurd rfl (hShort t' ts s' ss d' ds rfl rfl)

------------------------------------------------------------
-- One Step
------------------------------------------------------------

namespace Configuration

/- An action that fits acts on all tapes. -/
theorem actsOn_apply
    {c : Configuration}
    {a : Action}
    (hWrite : a.write.length = c.tapes.length)
    (hMoves : a.moves.length = c.tapes.length) :
    a.ActsOn c.tapes (c.apply a).tapes := by
  rw [tapes_apply]
  refine ⟨Tape.length_actAll _ _ _, ?_⟩
  intro j t hTape
  have hIndex : j < c.tapes.length :=
    (List.getElem?_eq_some_iff.mp hTape).1
  have hSymbol :
      a.write[j]? = some (a.write.get ⟨j, hWrite ▸ hIndex⟩) :=
    List.getElem?_eq_getElem _
  have hMove :
      a.moves[j]? = some (a.moves.get ⟨j, hMoves ▸ hIndex⟩) :=
    List.getElem?_eq_getElem _
  exact
    ⟨_, _, _, hSymbol, hMove,
      Tape.getElem?_actAll hTape hSymbol hMove,
      Tape.view_act t _ _⟩

variable {k : Nat}

/- The symbols under the heads are those at distance zero. -/
theorem Represents.symbols_eq
    {c : Configuration}
    {d : InfiniteConfiguration k}
    (hRepresents : c.Represents d) :
    c.symbols = List.ofFn fun j => d.tapes j 0 := by
  have hHeads :
      c.symbols =
        (c.tapes.map Tape.view).map fun view => view 0 := by
    rw [List.map_map]
    rfl
  rw [hHeads, hRepresents.2, List.map_ofFn]
  rfl

/- An action that fits keeps the representation. -/
theorem Represents.apply
    {c : Configuration}
    {d : InfiniteConfiguration k}
    {a : Action}
    (hRepresents : c.Represents d)
    (hWrite : a.write.length = c.tapes.length)
    (hMoves : a.moves.length = c.tapes.length) :
    (c.apply a).Represents
      (d.apply
        { nextState := a.nextState
          write := fun j => a.write.getD j Symbol.blank
          moves := fun j => a.moves.getD j .stay }) := by
  have hActs := actsOn_apply hWrite hMoves
  have hLength : c.tapes.length = k := by
    simpa using congrArg List.length hRepresents.2
  refine ⟨state_apply c a, ?_⟩
  apply List.ext_getElem?
  intro j
  by_cases hIndex : j < k
  · have hTape : c.tapes[j]? = some c.tapes[j] :=
      List.getElem?_eq_getElem _
    have hView :
        Tape.view (c.tapes[j]) = d.tapes ⟨j, hIndex⟩ := by
      have hAt :=
        congrArg (fun views => views[j]?) hRepresents.2
      simpa [hTape, hIndex] using hAt
    rcases hActs.2 j _ hTape with
      ⟨s, move, t, hSymbol, hMove, hAfter, hMoved⟩
    have hNew :
        t.view =
          fun i =>
            Function.update (d.tapes ⟨j, hIndex⟩) 0 s
              (i + move.offset) := by
      funext i
      rw [hMoved, hView]
    simp [hAfter, hIndex, InfiniteConfiguration.apply,
      List.getD_eq_getElem?_getD, hSymbol, hMove, hNew]
  · have hShort : (c.apply a).tapes.length ≤ j := by
      rw [hActs.1, hLength]
      exact Nat.le_of_not_lt hIndex
    rw [List.getElem?_eq_none (by simpa using hShort),
      List.getElem?_eq_none (by simpa using hIndex)]

/- In the beginning the input is represented. -/
theorem represents_initial
    {k : Nat}
    (hPositive : 0 < k)
    (start : State)
    (input : List Symbol) :
    (initial k start input).Represents
      (InfiniteConfiguration.initial k start input) := by
  refine ⟨rfl, ?_⟩
  cases k with
  | zero => exact absurd hPositive (Nat.lt_irrefl 0)
  | succ k =>
      have hControl :
          (Tape.ofInput input).view =
            fun i =>
              if 0 ≤ i then
                input.getD i.toNat Symbol.blank
              else
                Symbol.blank := by
        funext i
        exact Tape.view_ofInput input i
      have hWork :
          Tape.blank.view = fun _ => Symbol.blank := by
        funext i
        exact Tape.view_blank i
      simp [initial, Configuration.tapes,
        InfiniteConfiguration.initial, List.ofFn_succ,
        List.ofFn_const, Fin.succ_ne_zero, hControl, hWork]

end Configuration

namespace Machine

/- A step of a machine that fits acts on all tapes. -/
theorem actsOn_of_lookup_eq_some
    {m : Machine}
    {a : Action}
    (hFits : m.Fits)
    (hLookup : m.table.lookup m.state m.symbols = some a) :
    a.ActsOn m.configuration.tapes
      (m.take a).configuration.tapes := by
  rcases hFits.table _ _ _ hLookup with
    ⟨_hRead, hWrite, hMoves⟩
  exact
    Configuration.actsOn_apply
      (hWrite.trans hFits.length.symm)
      (hMoves.trans hFits.length.symm)

/- The machine and the infinite tapes take the same step, or none. -/
theorem step_rel
    {m : Machine}
    {t : Table}
    {c : InfiniteConfiguration t.tapes}
    (hTable : m.table = t)
    (hFits : m.Fits)
    (hRepresents : m.configuration.Represents c) :
    (∃ e, m.step = .error e ∧ c.step? t.program = none) ∨
      ∃ next s d,
        m.step = .ok (next, s) ∧
          c.step? t.program = some d ∧
          next.configuration.Represents d := by
  have hKey :
      t.lookup c.state (List.ofFn fun j => c.tapes j 0) =
        m.table.lookup m.state m.symbols := by
    rw [hTable, ← hRepresents.symbols_eq, ← hRepresents.1]
    rfl
  cases hLookup : m.table.lookup m.state m.symbols with
  | none =>
      refine Or.inl ⟨.noTransition m.configuration.key, ?_, ?_⟩
      · exact step_eq_error_iff.mpr ⟨hLookup, rfl⟩
      · simp [InfiniteConfiguration.step?, Table.program,
          hKey, hLookup]
  | some a =>
      rcases hFits.table _ _ _ hLookup with
        ⟨_hRead, hWrite, hMoves⟩
      refine
        Or.inr
          ⟨m.take a, _, _,
            step_eq_ok_iff.mpr ⟨a, hLookup, rfl, rfl⟩, ?_,
            hRepresents.apply
              (hWrite.trans hFits.length.symm)
              (hMoves.trans hFits.length.symm)⟩
      simp [InfiniteConfiguration.step?, Table.program,
        hKey, hLookup]

------------------------------------------------------------
-- Any Number Of Steps
------------------------------------------------------------

/-
  From a machine that represents a configuration, any number of
  steps leads to a machine that represents the configuration
  after as many steps, or cannot be taken by either.
-/
theorem after?_rel
    {m : Machine}
    {t : Table}
    {c : InfiniteConfiguration t.tapes}
    (hTable : m.table = t)
    (hReachable : m.Reachable)
    (hRepresents : m.configuration.Represents c)
    (n : Nat) :
    Option.Rel
      (fun next d =>
        next.configuration.Represents d ∧
          next.steps = m.steps + n)
      (m.after? n) (c.after? t.program n) := by
  induction n generalizing m c with
  | zero => exact .some ⟨hRepresents, rfl⟩
  | succ n ih =>
      rcases step_rel hTable hReachable.fits hRepresents with
        ⟨e, hStep, hNone⟩ |
          ⟨next, s, d, hStep, hSome, hNext⟩
      · rw [after?_succ_of_step_eq_error hStep,
          InfiniteConfiguration.after?, hNone]
        exact .none
      · rw [after?_succ_of_step_eq_ok hStep,
          InfiniteConfiguration.after?, hSome]
        have hAfter : next.Reachable := by
          have hCall := hReachable.perform .step
          simpa [perform, hStep] using hCall
        rcases step_eq_ok_iff.mp hStep with
          ⟨a, _hLookup, rfl, _hs⟩
        have hCount :
            m.steps + (n + 1) = (m.take a).steps + n := by
          simp only [take]
          omega
        rw [hCount]
        exact ih hTable hAfter hNext

/-
  A machine on finitely many kept cells behaves as the machine
  on infinite tapes. It takes a step exactly when its table has
  an action for the symbols under the heads; the step then acts
  on every tape, changes the state and counts itself, and
  leaves all else alone. Without an action nothing changes.
  From the beginning on, any number of steps gives what the
  program of the table gives on infinite tapes.
-/
theorem step_refines_infinite_tapes
    {m : Machine}
    (hReachable : m.Reachable) :
    (∀ t ∈ m.configuration.tapes, ∀ i : Int,
      t.view i =
        if 0 ≤ t.head + i then
          t.cells.getD (t.head + i).toNat Symbol.blank
        else
          Symbol.blank) ∧
      (∀ a,
        m.table.lookup m.state
            (m.configuration.tapes.map fun t => t.view 0) =
          some a →
        ∃ next,
          m.step =
              .ok
                (next,
                  ⟨m.steps + 1, m.state,
                    m.configuration.tapes.map
                      fun t => t.view 0,
                    a.nextState⟩) ∧
            next =
              { m with
                configuration := next.configuration
                steps := m.steps + 1 } ∧
            next.state = a.nextState ∧
            a.ActsOn m.configuration.tapes
              next.configuration.tapes) ∧
      (m.table.lookup m.state
            (m.configuration.tapes.map fun t => t.view 0) =
          none →
        m.step =
            .error
              (.noTransition
                ⟨m.state,
                  m.configuration.tapes.map
                    fun t => t.view 0⟩) ∧
          m.perform .step = m) ∧
      ∀ n,
        Option.Rel
          (fun next d =>
            next.configuration.Represents d ∧ next.steps = n)
          (m.reset.after? n)
          ((InfiniteConfiguration.initial m.table.tapes
            m.start m.input).after? m.table.program n) := by
  refine ⟨?_, ?_, ?_, ?_⟩
  · intro t _hMem i
    exact t.view_eq_getD i
  · intro a hLookup
    refine
      ⟨m.take a,
        step_eq_ok_iff.mpr ⟨a, hLookup, rfl, rfl⟩, rfl,
        Configuration.state_apply m.configuration a, ?_⟩
    exact actsOn_of_lookup_eq_some hReachable.fits hLookup
  · intro hLookup
    have hStep := step_eq_error_iff.mpr ⟨hLookup, rfl⟩
    exact ⟨hStep, by simp [perform, hStep]⟩
  · intro n
    have hReset : m.reset.Reachable :=
      hReachable.perform .reset
    have hLength : m.table.tapes = m.configuration.tapes.length :=
      hReachable.fits.length.symm
    have hInitial :
        m.reset.configuration.Represents
          (InfiniteConfiguration.initial m.table.tapes
            m.start m.input) := by
      unfold reset
      rw [← hLength]
      apply Configuration.represents_initial
      rw [hLength]
      exact Nat.succ_pos _
    have hRel := after?_rel rfl hReset hInitial n
    simpa [reset] using hRel

/- Two steps of the copying machine, on kept and infinite tapes. -/
theorem copier_refines_infinite_tapes :
    copier.Reachable ∧
      ∃ next d,
        copier.reset.after? 2 = some next ∧
          (InfiniteConfiguration.initial copier.table.tapes
            copier.start copier.input).after?
              copier.table.program 2 = some d ∧
          next.configuration.Represents d ∧
          next.configuration.tapes.map Tape.cells =
            [['a', 'b', '_'], ['_', 'b', 'a']] := by
  refine ⟨reachable_copier, ?_⟩
  have hCells :
      (copier.reset.after? 2).map
          (fun next =>
            next.configuration.tapes.map Tape.cells) =
        some [['a', 'b', '_'], ['_', 'b', 'a']] := by
    decide
  have hRel :=
    (step_refines_infinite_tapes reachable_copier).2.2.2 2
  cases hNext : copier.reset.after? 2 with
  | none =>
      rw [hNext] at hCells
      cases hCells
  | some next =>
      rw [hNext] at hCells hRel
      cases hInfinite :
          (InfiniteConfiguration.initial copier.table.tapes
            copier.start copier.input).after?
              copier.table.program 2 with
      | none =>
          rw [hInfinite] at hRel
          cases hRel
      | some d =>
          rw [hInfinite] at hRel
          cases hRel with
          | some hBoth =>
              exact
                ⟨next, d, rfl, rfl, hBoth.1,
                  Option.some.inj hCells⟩

end Machine

end MultiTape
