import MultiTape.Rule
import MultiTape.Tape.Basic

/-
  This file defines what changes while a machine works: its
  state and its tapes. The control tape holds the input in the
  beginning and decides when a run ends; all other tapes are
  work tapes.

  Key definitions include:
    * `Configuration`
    * `Configuration.initial`
    * `Configuration.key`
    * `Configuration.apply`
-/

namespace MultiTape

------------------------------------------------------------
-- Several tapes at once
------------------------------------------------------------

/- Write a symbol and then move the head. -/
def Tape.act
    (t : Tape)
    (s : Symbol)
    (m : Move) : Tape :=
  (t.write s).shift m

/- Write and move on every tape for which there is a symbol and a movement. -/
def Tape.actAll : List Tape → List Symbol → List Move → List Tape
  | t :: ts, s :: ss, m :: ms => t.act s m :: Tape.actAll ts ss ms
  | ts, _, _ => ts

/- The number of tapes stays the same. -/
@[simp]
theorem Tape.length_actAll
    (ts : List Tape)
    (ss : List Symbol)
    (ms : List Move) :
    (Tape.actAll ts ss ms).length = ts.length := by
  fun_induction Tape.actAll ts ss ms with
  | case1 t ts s ss m ms ih => simp [ih]
  | case2 => rfl

------------------------------------------------------------
-- Configurations
------------------------------------------------------------

/- A state, the control tape and the work tapes. -/
structure Configuration where
  state : State
  control : Tape
  work : List Tape
  deriving DecidableEq, Repr

namespace Configuration

/- All tapes, the control tape first. -/
def tapes
    (c : Configuration) : List Tape :=
  c.control :: c.work

/- The configuration in the beginning, for a positive number of tapes. -/
def initial
    (tapes : Nat)
    (start : State)
    (input : List Symbol) : Configuration where
  state := start
  control := Tape.ofInput input
  work := List.replicate (tapes - 1) Tape.blank

/- The symbols under the heads. -/
def symbols
    (c : Configuration) : List Symbol :=
  c.tapes.map Tape.read

/- The state and the symbols under the heads. -/
def key
    (c : Configuration) : Key :=
  ⟨c.state, c.symbols⟩

/- The head of the control tape is on a blank. -/
def AtBlank
    (c : Configuration) : Prop :=
  c.control.read = Symbol.blank

instance
    (c : Configuration) :
    Decidable c.AtBlank :=
  inferInstanceAs (Decidable (c.control.read = Symbol.blank))

/- Take an action on all tapes. -/
def apply
    (c : Configuration)
    (a : Action) : Configuration :=
  match a.write, a.moves with
  | s :: ss, m :: ms => ⟨a.nextState, c.control.act s m, Tape.actAll c.work ss ms⟩
  | _, _ => { c with state := a.nextState }

/- The tapes after an action. -/
theorem tapes_apply
    (c : Configuration)
    (a : Action) :
    (c.apply a).tapes = Tape.actAll c.tapes a.write a.moves := by
  unfold apply tapes
  split
  · next hWrite hMoves => rw [hWrite, hMoves, Tape.actAll]
  · next hNot =>
      cases hWrite : a.write with
      | nil => simp [Tape.actAll]
      | cons s ss =>
          cases hMoves : a.moves with
          | nil => simp [Tape.actAll]
          | cons m ms => exact absurd hMoves (hNot s ss m ms hWrite)

/- The state after an action. -/
@[simp]
theorem state_apply
    (c : Configuration)
    (a : Action) :
    (c.apply a).state = a.nextState := by
  unfold apply
  split <;> rfl

/- The number of tapes in the beginning. -/
theorem length_tapes_initial
    {tapes : Nat}
    {start : State}
    {input : List Symbol}
    (h : 0 < tapes) :
    (initial tapes start input).tapes.length = tapes := by
  simp [initial, Configuration.tapes]
  omega

end Configuration

end MultiTape
