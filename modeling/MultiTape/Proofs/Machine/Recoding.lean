import Mathlib.Data.List.Basic
import MultiTape.Proofs.Description.Assembly
import MultiTape.Proofs.Machine.Reachability
import MultiTape.Proofs.Table.Recoding

/-
  This file follows a recoding of states and tapes through a
  machine at work, from its description on. A description and
  its recoding fail to be built at the same place and for the
  same reason, or both machines take the same steps, up to the
  recoding.

  Key definitions include:
    * `Recoding.configuration`
    * `Recoding.entry`
    * `Recoding.ending`
    * `Recoding.description`
    * `Recoding.Matches`

  Main statements:
    * `Recoding.order_actAll`
    * `Recoding.configuration_apply`
    * `Recoding.Matches.step`
    * `Recoding.Matches.after?`
    * `Recoding.Matches.run`
    * `Recoding.ofDescription_description`
-/

namespace MultiTape

------------------------------------------------------------
-- Tapes Side By Side
------------------------------------------------------------

/- Acting on all tapes is acting on each with its own entries. -/
theorem Tape.actAll_eq_map_zip
    {ts : List Tape}
    {ss : List Symbol}
    {ds : List Move}
    (hSymbols : ss.length = ts.length)
    (hMoves : ds.length = ts.length) :
    Tape.actAll ts ss ds =
      (ts.zip (ss.zip ds)).map fun p =>
        p.1.act p.2.1 p.2.2 := by
  induction ts generalizing ss ds with
  | nil => rfl
  | cons t ts ih =>
      cases ss with
      | nil => cases hSymbols
      | cons s ss =>
          cases ds with
          | nil => cases hMoves
          | cons d ds =>
              rw [Tape.actAll,
                ih (Nat.succ.inj hSymbols)
                  (Nat.succ.inj hMoves)]
              rfl

/- A configuration is its state and its tapes. -/
theorem Configuration.ext_tapes
    {c d : Configuration}
    (hState : c.state = d.state)
    (hTapes : c.tapes = d.tapes) :
    c = d := by
  cases c
  cases d
  cases hState
  cases hTapes
  rfl

namespace Recoding

variable (ρ : Recoding)

/- The tapes are put in order before they are acted on, or after. -/
theorem order_actAll
    {ts : List Tape}
    {ss : List Symbol}
    {ds : List Move}
    (hSymbols : ss.length = ts.length)
    (hMoves : ds.length = ts.length) :
    ρ.order (Tape.actAll ts ss ds) =
      Tape.actAll (ρ.order ts) (ρ.order ss) (ρ.order ds) := by
  have hEntries : ss.length = ds.length :=
    hSymbols.trans hMoves.symm
  have hAll : ts.length = (ss.zip ds).length := by
    rw [List.length_zip, ← hEntries, Nat.min_self, hSymbols]
  calc
    ρ.order (Tape.actAll ts ss ds)
      = ρ.order
          ((ts.zip (ss.zip ds)).map fun p =>
            p.1.act p.2.1 p.2.2) := by
        rw [Tape.actAll_eq_map_zip hSymbols hMoves]
    _ = ((ρ.order ts).zip
          ((ρ.order ss).zip (ρ.order ds))).map fun p =>
            p.1.act p.2.1 p.2.2 := by
        rw [ρ.order_map, ρ.order_zip hAll,
          ρ.order_zip hEntries]
    _ = Tape.actAll (ρ.order ts) (ρ.order ss)
          (ρ.order ds) := by
        refine (Tape.actAll_eq_map_zip ?_ ?_).symm
        · simpa using hSymbols
        · simpa using hMoves

------------------------------------------------------------
-- Configurations
------------------------------------------------------------

/- A configuration in other names and another order. -/
def configuration
    (c : Configuration) : Configuration where
  state := ρ.state c.state
  control := c.control
  work := (ρ.order c.tapes).tail

/- All tapes are in the other order, the control tape included. -/
@[simp]
theorem tapes_configuration
    (c : Configuration) :
    (ρ.configuration c).tapes = ρ.order c.tapes := by
  rcases ρ.order_cons c.control c.work with ⟨others, hOrder⟩
  unfold configuration Configuration.tapes
  rw [hOrder]
  rfl

/- The symbols under the heads are in the other order. -/
@[simp]
theorem symbols_configuration
    (c : Configuration) :
    (ρ.configuration c).symbols = ρ.order c.symbols := by
  unfold Configuration.symbols
  rw [tapes_configuration, ρ.order_map]

@[simp]
theorem key_configuration
    (c : Configuration) :
    (ρ.configuration c).key = ρ.key c.key := by
  unfold Configuration.key
  rw [symbols_configuration]
  rfl

/- An action is taken before the recoding or after it. -/
theorem configuration_apply
    {c : Configuration}
    {a : Action}
    (hWrite : a.write.length = c.tapes.length)
    (hMoves : a.moves.length = c.tapes.length) :
    ρ.configuration (c.apply a) =
      (ρ.configuration c).apply (ρ.action a) := by
  apply Configuration.ext_tapes
  · rw [Configuration.state_apply]
    exact congrArg ρ.state (Configuration.state_apply c a)
  · rw [tapes_configuration, Configuration.tapes_apply,
      Configuration.tapes_apply, tapes_configuration]
    exact ρ.order_actAll hWrite hMoves

/-
  In the beginning the order makes no difference, since all work
  tapes are blank.
-/
theorem configuration_initial
    (tapes : Nat)
    (start : State)
    (input : List Symbol) :
    ρ.configuration (Configuration.initial tapes start input) =
      Configuration.initial tapes (ρ.state start) input := by
  apply Configuration.ext_tapes
  · rfl
  · rw [tapes_configuration]
    unfold Configuration.initial Configuration.tapes
    rcases ρ.order_cons (Tape.ofInput input)
        (List.replicate (tapes - 1) Tape.blank) with
      ⟨others, hOrder⟩
    have hPerm := ρ.order_perm
      (Tape.ofInput input ::
        List.replicate (tapes - 1) Tape.blank)
    rw [hOrder, List.perm_cons, List.perm_replicate] at hPerm
    rw [hOrder, hPerm]

------------------------------------------------------------
-- Machines
------------------------------------------------------------

/- A step in other names and another order. -/
def step
    (s : Step) : Step where
  index := s.index
  state := ρ.state s.state
  read := ρ.order s.read
  nextState := ρ.state s.nextState

/- An entry of a trace in other names and another order. -/
def entry
    (e : TraceEntry) : TraceEntry :=
  ⟨ρ.step e.step, ρ.configuration e.configuration⟩

/- A verdict in other names and another order. -/
def verdict : Verdict → Verdict
  | .missingTransition k => .missingTransition (ρ.key k)
  | v => v

/- The end of a run in other names and another order. -/
def ending
    (o : Except Error Verdict) : Except Error Verdict :=
  (o.map ρ.verdict).mapError ρ.error

/- A run stops in the same way. -/
theorem stop_error
    (e : Error) :
    Machine.stop (ρ.error e) = ρ.ending (Machine.stop e) := by
  cases e <;> rfl

/-
  The second machine, with its table, is the recoding of the
  first, which fits.
-/
structure Matches
    (m m' : Machine) : Prop where
  fits : m.Fits
  lookup :
    ∀ state symbols,
      m'.table.lookup (ρ.state state) (ρ.order symbols) =
        (m.table.lookup state symbols).map ρ.action
  configuration :
    m'.configuration = ρ.configuration m.configuration
  steps : m'.steps = m.steps
  maxSteps : m'.maxSteps = m.maxSteps
  accept : m'.accept = m.accept.map ρ.state

namespace Matches

variable {ρ}
variable {m m' : Machine}

/- A limit is given to both machines. -/
theorem setMaxSteps
    (hMatches : ρ.Matches m m')
    (limit : Option Nat) :
    ρ.Matches (m.setMaxSteps limit) (m'.setMaxSteps limit) where
  fits := ⟨hMatches.fits.table, hMatches.fits.length⟩
  lookup := hMatches.lookup
  configuration := hMatches.configuration
  steps := hMatches.steps
  maxSteps := rfl
  accept := hMatches.accept

/- Both machines are on a blank or none is. -/
theorem atBlank_iff
    (hMatches : ρ.Matches m m') :
    m'.configuration.AtBlank ↔ m.configuration.AtBlank := by
  rw [hMatches.configuration]
  rfl

/- Both machines accept or none does. -/
theorem verdict_eq
    (hMatches : ρ.Matches m m') :
    m'.verdict = ρ.verdict m.verdict := by
  have hAccepting :
      m'.IsAccepting m'.state ↔ m.IsAccepting m.state := by
    unfold Machine.IsAccepting Machine.state
    rw [hMatches.configuration, hMatches.accept]
    exact List.mem_map_of_injective ρ.state_injective
  unfold Machine.verdict
  simp only [hAccepting]
  split <;> rfl

/-
  Both machines take a step and still match after it, or none
  does, for the same reason.
-/
theorem step
    (hMatches : ρ.Matches m m') :
    (∃ e,
        m.step = .error e ∧ m'.step = .error (ρ.error e)) ∨
      ∃ next next' s,
        m.step = .ok (next, s) ∧
          m'.step = .ok (next', ρ.step s) ∧
          ρ.Matches next next' := by
  have hState : m'.state = ρ.state m.state := by
    unfold Machine.state
    rw [hMatches.configuration]
    rfl
  have hSymbols : m'.symbols = ρ.order m.symbols := by
    unfold Machine.symbols
    rw [hMatches.configuration, symbols_configuration]
  have hLookup := hMatches.lookup m.state m.symbols
  rw [← hState, ← hSymbols] at hLookup
  cases hAction : m.table.lookup m.state m.symbols with
  | none =>
      rw [hAction] at hLookup
      refine Or.inl ⟨.noTransition m.configuration.key, ?_, ?_⟩
      · exact Machine.step_eq_error_iff.mpr ⟨hAction, rfl⟩
      · refine Machine.step_eq_error_iff.mpr ⟨hLookup, ?_⟩
        rw [hMatches.configuration, key_configuration]
        rfl
  | some a =>
      rw [hAction] at hLookup
      rcases hMatches.fits.table _ _ _ hAction with
        ⟨_hRead, hWrite, hMoves⟩
      have hLength := hMatches.fits.length.symm
      have hStep :=
        Machine.step_eq_ok_iff.mpr ⟨a, hAction, rfl, rfl⟩
      refine
        Or.inr
          ⟨m.take a, m'.take (ρ.action a), _, hStep,
            Machine.step_eq_ok_iff.mpr
              ⟨ρ.action a, hLookup, rfl, ?_⟩,
            ?_⟩
      · rw [hMatches.steps, hState, hSymbols]
        rfl
      · refine
          ⟨hMatches.fits.step hStep, hMatches.lookup, ?_, ?_,
            hMatches.maxSteps, hMatches.accept⟩
        · simp only [Machine.take]
          rw [hMatches.configuration,
            ρ.configuration_apply (hWrite.trans hLength)
              (hMoves.trans hLength)]
        · simp only [Machine.take]
          rw [hMatches.steps]

/- Any number of steps is taken by both machines, or by none. -/
theorem after?
    (hMatches : ρ.Matches m m')
    (n : Nat) :
    Option.Rel ρ.Matches (m.after? n) (m'.after? n) := by
  induction n generalizing m m' with
  | zero => exact .some hMatches
  | succ n ih =>
      rcases hMatches.step with
        ⟨e, hError, hError'⟩ |
          ⟨next, next', s, hOk, hOk', hNext⟩
      · rw [Machine.after?_succ_of_step_eq_error hError,
          Machine.after?_succ_of_step_eq_error hError']
        exact .none
      · rw [Machine.after?_succ_of_step_eq_ok hOk,
          Machine.after?_succ_of_step_eq_ok hOk']
        exact ih hNext

/- Any number of steps leads to configurations that correspond. -/
theorem configuration_after?
    (hMatches : ρ.Matches m m')
    (n : Nat) :
    (m'.after? n).map Machine.configuration =
      (m.after? n).map fun c =>
        ρ.configuration c.configuration := by
  have hAfter := hMatches.after? n
  generalize m.after? n = last at hAfter ⊢
  generalize m'.after? n = last' at hAfter ⊢
  cases hAfter with
  | none => rfl
  | some hLast => exact congrArg some hLast.configuration

/- In a run the limit is reached by both machines, or by none. -/
theorem advance
    (hMatches : ρ.Matches m m') :
    (∃ e,
        m.advance = .error e ∧
          m'.advance = .error (ρ.error e)) ∨
      ∃ next next' s,
        m.advance = .ok (next, s) ∧
          m'.advance = .ok (next', ρ.step s) ∧
          ρ.Matches next next' := by
  have hSpent : m'.spent? = m.spent? := by
    unfold Machine.spent?
    rw [hMatches.maxSteps, hMatches.steps]
  unfold Machine.advance
  rw [hSpent]
  cases m.spent? with
  | some limit => exact Or.inl ⟨.stepLimit limit, rfl, rfl⟩
  | none => exact hMatches.step

/- Machines that match run alike, for any number of steps. -/
theorem run
    (hMatches : ρ.Matches m m')
    (fuel : Nat) :
    (m'.run fuel).outcome =
        (m.run fuel).outcome.map ρ.ending ∧
      (m'.run fuel).trace = (m.run fuel).trace.map ρ.entry ∧
      ρ.Matches (m.run fuel).machine (m'.run fuel).machine := by
  refine
    Machine.run_related ρ.entry ρ.ending ?_ ?_ ?_ hMatches fuel
  · intro m m' hMatches
    rcases hMatches.advance with
      ⟨e, hError, hError'⟩ |
        ⟨next, next', s, hOk, hOk', hNext⟩
    · exact Or.inl ⟨e, _, hError, hError', ρ.stop_error e⟩
    · refine
        Or.inr ⟨next, next', s, _, hOk, hOk', hNext, ?_⟩
      rw [hNext.configuration]
      rfl
  · intro m m' hMatches
    exact hMatches.atBlank_iff
  · intro m m' hMatches
    rw [hMatches.verdict_eq]
    rfl

end Matches

------------------------------------------------------------
-- Descriptions
------------------------------------------------------------

/- A description in other names and another order. -/
def description
    (d : Description) : Description :=
  { d with
    states := d.states.map ρ.state
    start := ρ.state d.start
    accept := d.accept.map ρ.state
    rules := d.rules.map ρ.rule }

/- Machines with related tables match in the beginning. -/
theorem matches_assemble
    {d : Description}
    {t t' : Table}
    (hTapes : d.HasTapes)
    (hCount : t.tapes = d.tapes)
    (hRelates : ρ.Relates t t') :
    ρ.Matches (d.assemble t)
      ((ρ.description d).assemble t') where
  fits :=
    ⟨hRelates.fits,
      (Configuration.length_tapes_initial hTapes.1).trans
        hCount.symm⟩
  lookup := hRelates.lookup_eq
  configuration :=
    (ρ.configuration_initial d.tapes d.start d.input).symm
  steps := rfl
  maxSteps := rfl
  accept := rfl

/-
  The builds of a description and of its recoding fail at the
  same place, for the same reason, or both succeed, and the
  machines match.
-/
theorem ofDescription_description
    (d : Description) :
    (∃ place e,
        d.FailsAt place e ∧
          (ρ.description d).FailsAt place (ρ.error e)) ∨
      ∃ m m',
        (Machine.ofDescription d).result = .ok m ∧
          (Machine.ofDescription (ρ.description d)).result =
            .ok m' ∧
          ρ.Matches m m' := by
  by_cases hTapes : d.HasTapes
  · have hEmpty :=
      ρ.relates_ofSymbols d.tapes d.input d.mode
    rcases hEmpty.registerAll d.rules with
      ⟨i, e, hRefuses, hRefuses'⟩ |
        ⟨t, t', counts, hAll, hAll', hRelates⟩
    · exact
        Or.inl
          ⟨some i, e, .rule hTapes hRefuses,
            .rule hTapes hRefuses'⟩
    · have hCount : t.tapes = d.tapes := by
        rcases Table.registerAll_eq_ok_iff_bindAll.mp hAll with
          ⟨_hFits, _hFree, rfl, _hCounts⟩
        rfl
      refine
        Or.inr
          ⟨d.assemble t, (ρ.description d).assemble t', ?_, ?_,
            ρ.matches_assemble hTapes hCount hRelates⟩
      · exact
          Description.result_ofDescription_eq_ok_iff.mpr
            ⟨hTapes, t, counts, hAll, rfl⟩
      · exact
          Description.result_ofDescription_eq_ok_iff.mpr
            ⟨hTapes, t', counts, hAll', rfl⟩
  · exact
      Or.inl
        ⟨none, .tapeCount d.tapes, .count hTapes,
          .count hTapes⟩

end Recoding

end MultiTape
