import MultiTape.Proofs.Machine.InfiniteTapes
import MultiTape.Proofs.Tape.Indexed

/-
  This file has a machine work on rows of cells, where every
  index is checked and a step may come to nothing because one
  is out of range. Whatever was called before, that never
  happens: there is a first tape, every head is on a cell, and
  every action of the table has one symbol and one movement for
  every tape, so that no tape is left out of a step.

  Key definitions include:
    * `IndexedTape.initial?`
    * `IndexedTape.control?`
    * `IndexedTape.actZipped?`
    * `IndexedTape.step?`
    * `IndexedTape.run?`
    * `Machine.rows`

  Main statements:
    * `Machine.step?_rows`
    * `Machine.run?_rows`
    * `Machine.tapes_performAll`
    * `Machine.act_of_step_eq_ok`
    * `Machine.stored_rules_fit_all_tapes`
-/

namespace MultiTape

------------------------------------------------------------
-- Work On Rows
------------------------------------------------------------

namespace IndexedTape

/- The rows in the beginning; there has to be a first one. -/
def initial?
    (count : Nat)
    (input : List Symbol) : Option (List IndexedTape) :=
  if 1 ≤ count then
    some (ofInput input :: List.replicate (count - 1) blank)
  else
    none

/- The symbol that decides whether a run goes on. -/
def control?
    (rows : List IndexedTape) : Option Symbol :=
  rows[0]?.bind read?

/-
  Write and move on the rows that have a symbol and a movement,
  as many as there are of all three. The rows after them stay
  as they are.
-/
def actZipped?
    (rows : List IndexedTape)
    (ss : List Symbol)
    (ds : List Move) : Option (List IndexedTape) :=
  (((rows.zip ss).zip ds).mapM fun ((row, s), d) =>
      act? row s d).map
    fun (acted : List IndexedTape) =>
      acted ++ rows.drop acted.length

/- One step on rows. -/
def step?
    (table : Table)
    (state : State)
    (rows : List IndexedTape) :
    Option (Except Error (State × List IndexedTape)) :=
  (rows.mapM read?).bind fun symbols =>
    match table.lookup state symbols with
    | none => some (.error (.noTransition ⟨state, symbols⟩))
    | some a =>
        (actZipped? rows a.write a.moves).map fun acted =>
          .ok (a.nextState, acted)

/-
  A run on rows, for at most the given number of steps. The
  control tape is looked at before every step.
-/
def run?
    (table : Table)
    (limit : Option Nat) :
    Nat → State → List IndexedTape → Nat →
      Option (State × List IndexedTape)
  | 0, state, rows, _ => some (state, rows)
  | fuel + 1, state, rows, steps =>
      (control? rows).bind fun symbol =>
        match limit.filter (· ≤ steps) with
        | some _ => some (state, rows)
        | none =>
            (step? table state rows).bind fun
              | .error _ => some (state, rows)
              | .ok (next, acted) =>
                  if symbol = Symbol.blank then
                    some (next, acted)
                  else
                    run? table limit fuel next acted (steps + 1)

/- All heads of tapes can be read. -/
theorem mapM_read?_indexed
    (ts : List Tape) :
    (ts.map Tape.indexed).mapM read? =
      some (ts.map Tape.read) := by
  induction ts with
  | nil => rfl
  | cons t ts ih => simp [List.mapM_cons, ih]

/- All tapes can be acted on that there is an entry for. -/
theorem actZipped?_indexed
    (ts : List Tape)
    (ss : List Symbol)
    (ds : List Move) :
    actZipped? (ts.map Tape.indexed) ss ds =
      some ((Tape.actAll ts ss ds).map Tape.indexed) := by
  fun_induction Tape.actAll ts ss ds with
  | case1 t ts s ss d ds ih =>
      unfold actZipped? at ih ⊢
      rcases Option.map_eq_some_iff.mp ih with
        ⟨acted, hActed, hEq⟩
      simp [List.mapM_cons, hActed, ← hEq]
  | case2 ts ss ds hShort =>
      -- One of the lists is over, so there is nothing to act on.
      have hNone :
          ((ts.map Tape.indexed).zip ss).zip ds = [] := by
        cases ts with
        | nil => rfl
        | cons t ts =>
            cases ss with
            | nil => rfl
            | cons s ss =>
                cases ds with
                | nil => rfl
                | cons d ds =>
                    exact (hShort _ _ _ _ _ _ rfl rfl rfl).elim
      simp [actZipped?, hNone]

end IndexedTape

namespace Machine

/- The tapes of a machine as rows. -/
def rows
    (m : Machine) : List IndexedTape :=
  m.configuration.tapes.map Tape.indexed

/- There is a first tape. -/
theorem control?_rows
    (m : Machine) :
    IndexedTape.control? m.rows =
      some m.configuration.control.read :=
  m.configuration.control.read?_indexed

/- In the beginning there are as many rows as tapes. -/
theorem initial?_eq_some
    {count : Nat}
    (hPositive : 1 ≤ count)
    (start : State)
    (input : List Symbol) :
    IndexedTape.initial? count input =
      some
        ((Configuration.initial count start input).tapes.map
          Tape.indexed) := by
  unfold IndexedTape.initial?
  rw [if_pos hPositive]
  simp [Configuration.tapes, Configuration.initial]

/-
  A step on the rows of a machine is the step of the machine.
-/
theorem step?_rows
    (m : Machine) :
    IndexedTape.step? m.table m.state m.rows =
      some (m.step.map fun p => (p.1.state, p.1.rows)) := by
  have hRead :
      m.rows.mapM IndexedTape.read? = some m.symbols :=
    IndexedTape.mapM_read?_indexed m.configuration.tapes
  unfold IndexedTape.step?
  rw [hRead, Option.bind_some]
  cases hLookup : m.table.lookup m.state m.symbols with
  | none =>
      rw [step_eq_error_iff.mpr ⟨hLookup, rfl⟩]
      rfl
  | some a =>
      have hActed :
          IndexedTape.actZipped? m.rows a.write a.moves =
            some ((m.configuration.apply a).tapes.map
              Tape.indexed) := by
        rw [Configuration.tapes_apply]
        exact
          IndexedTape.actZipped?_indexed m.configuration.tapes
            a.write a.moves
      rw [step_of_lookup_eq_some hLookup]
      simp only [hActed, Option.map_some, Except.map, state,
        Configuration.state_apply]
      rfl

/- A run on the rows of a machine is the run of the machine. -/
theorem run?_rows
    (m : Machine)
    (fuel : Nat) :
    IndexedTape.run? m.table m.maxSteps fuel m.state m.rows
        m.steps =
      some
        ((m.run fuel).machine.state,
          (m.run fuel).machine.rows) := by
  induction fuel generalizing m with
  | zero => rfl
  | succ fuel ih =>
      rw [IndexedTape.run?, control?_rows, run_succ,
        Option.bind_some]
      unfold advance spent?
      cases m.maxSteps.filter (· ≤ m.steps) with
      | some limit => rfl
      | none =>
          simp only [step?_rows]
          cases hStep : m.step with
          | error e => rfl
          | ok p =>
              rcases p with ⟨next, taken⟩
              have hRest := ih next
              rcases step_eq_ok_iff.mp hStep with
                ⟨a, _hLookup, rfl, _hTaken⟩
              simp only [Except.map, Option.bind_some]
              by_cases hBlank : m.configuration.AtBlank
              · have hRead :
                    m.configuration.control.read =
                      Symbol.blank :=
                  hBlank
                rw [if_pos hRead, if_pos hBlank]
              · have hRead :
                    m.configuration.control.read ≠
                      Symbol.blank :=
                  hBlank
                rw [if_neg hRead, if_neg hBlank]
                exact hRest

------------------------------------------------------------
-- Every Tape Of A Machine
------------------------------------------------------------

/- A new machine has at least one tape, as many as its table. -/
theorem tapes_of_create_eq_ok
    {name : String}
    {tapes : Nat}
    {input : List Symbol}
    {states : List State}
    {start : State}
    {accept : List State}
    {m : Machine}
    (hCreate :
      create name tapes input states start accept = .ok m) :
    1 ≤ tapes ∧
      m.table.tapes = tapes ∧
      m.configuration =
        Configuration.initial tapes start input := by
  unfold create at hCreate
  split at hCreate
  · cases hCreate
  · next hTapes =>
      cases hCreate
      refine ⟨?_, rfl, rfl⟩
      exact Nat.pos_of_ne_zero fun h => hTapes (Or.inl h)

/- No call changes the number of tapes that a table is for. -/
theorem tapes_performAll
    (m : Machine)
    (calls : List Call) :
    (m.performAll calls).table.tapes = m.table.tapes := by
  refine
    performAll_induction
      (P := fun next => next.table.tapes = m.table.tapes)
      ?_ ?_ ?_ ?_ rfl
  · intro next e _hMem hSame
    exact (Table.tapes_edit next.table e).trans hSame
  · intro next limit hSame
    exact hSame
  · intro before next s hSame hStep
    rcases step_eq_ok_iff.mp hStep with
      ⟨a, _hLookup, rfl, _hTaken⟩
    exact hSame
  · intro next hSame
    exact hSame

/-
  A step of a machine that fits finds an action with an entry
  for every tape, writes on each of them and moves its head.
-/
theorem act_of_step_eq_ok
    {m next : Machine}
    {taken : Step}
    (hFits : m.Fits)
    (hStep : m.step = .ok (next, taken)) :
    ∃ a,
      m.table.lookup m.state m.symbols = some a ∧
        ((m.configuration.tapes.zip a.write).zip
          a.moves).length = m.table.tapes ∧
        ∀ (j : Nat) (t : Tape),
          m.configuration.tapes[j]? = some t →
          ∃ s d,
            a.write[j]? = some s ∧
              a.moves[j]? = some d ∧
              next.configuration.tapes[j]? =
                some (t.act s d) := by
  rcases step_eq_ok_iff.mp hStep with
    ⟨a, hLookup, rfl, _hTaken⟩
  rcases hFits.table _ _ _ hLookup with
    ⟨_hRead, hWrite, hMoves⟩
  refine ⟨a, hLookup, ?_, ?_⟩
  · simp [hFits.length, hWrite, hMoves]
  · intro j t hTape
    have hIndex : j < m.table.tapes := by
      rw [← hFits.length]
      exact (List.getElem?_eq_some_iff.mp hTape).1
    have hSymbol :
        a.write[j]? =
          some (a.write.get ⟨j, hWrite ▸ hIndex⟩) :=
      List.getElem?_eq_getElem _
    have hMove :
        a.moves[j]? =
          some (a.moves.get ⟨j, hMoves ▸ hIndex⟩) :=
      List.getElem?_eq_getElem _
    refine ⟨_, _, hSymbol, hMove, ?_⟩
    change (m.configuration.apply a).tapes[j]? = _
    rw [Configuration.tapes_apply]
    exact Tape.getElem?_actAll hTape hSymbol hMove

/-
  Whatever was called on a new machine, its tapes are as many
  as it was made with, at least one; every head is on a cell;
  and every action of the table has one symbol and one movement
  for every tape and stands at a key with one symbol for every
  tape. So a step acts on all tapes, keys of another length
  have no action, and work on rows of cells never comes to an
  index out of range: not in the beginning, not on the way and
  not when the machine goes back.
-/
theorem stored_rules_fit_all_tapes
    {name : String}
    {tapes : Nat}
    {input : List Symbol}
    {states : List State}
    {start : State}
    {accept : List State}
    {first : Machine}
    (hCreate :
      create name tapes input states start accept = .ok first)
    (calls : List Call) :
    let m := first.performAll calls
    1 ≤ tapes ∧
      m.configuration.tapes.length = tapes ∧
      (∀ t ∈ m.configuration.tapes,
        t.head < t.cells.length) ∧
      (∀ state symbols a,
        m.table.lookup state symbols = some a →
          symbols.length = tapes ∧
            a.write.length = tapes ∧
            a.moves.length = tapes) ∧
      (∀ state symbols, symbols.length ≠ tapes →
        m.table.lookup state symbols = none) ∧
      (∀ next taken, m.step = .ok (next, taken) →
        ∃ a,
          m.table.lookup m.state m.symbols = some a ∧
            ((m.configuration.tapes.zip a.write).zip
              a.moves).length = tapes ∧
            ∀ (j : Nat) (t : Tape),
              m.configuration.tapes[j]? = some t →
              ∃ s d,
                a.write[j]? = some s ∧
                  a.moves[j]? = some d ∧
                  next.configuration.tapes[j]? =
                    some (t.act s d)) ∧
      IndexedTape.step? m.table m.state m.rows =
        some (m.step.map fun p => (p.1.state, p.1.rows)) ∧
      (∀ fuel,
        IndexedTape.run? m.table m.maxSteps fuel m.state
            m.rows m.steps =
          some
            ((m.run fuel).machine.state,
              (m.run fuel).machine.rows)) ∧
      IndexedTape.initial? tapes input = some first.rows ∧
      IndexedTape.initial? m.rows.length m.input =
        some m.reset.rows := by
  intro m
  rcases tapes_of_create_eq_ok hCreate with
    ⟨hPositive, hFirst, hInitial⟩
  have hFits : m.Fits :=
    ((Reachable.create hCreate).performAll calls).fits
  have hTapes : m.table.tapes = tapes :=
    (tapes_performAll first calls).trans hFirst
  have hLength : m.configuration.tapes.length = tapes :=
    hFits.length.trans hTapes
  have hBound :
      ∀ state symbols a,
        m.table.lookup state symbols = some a →
          symbols.length = tapes ∧
            a.write.length = tapes ∧
            a.moves.length = tapes := by
    rw [← hTapes]
    exact hFits.table
  refine
    ⟨hPositive, hLength, ?_, hBound, ?_, ?_, m.step?_rows,
      m.run?_rows, ?_, ?_⟩
  · intro t _hMem
    exact t.head_lt_length_cells
  · intro state symbols hOther
    apply Option.eq_none_iff_forall_ne_some.mpr
    intro a hLookup
    exact hOther (hBound state symbols a hLookup).1
  · intro next taken hStep
    rw [← hTapes]
    exact act_of_step_eq_ok hFits hStep
  · unfold rows
    rw [hInitial]
    exact initial?_eq_some hPositive start input
  · have hRows : m.rows.length = m.configuration.tapes.length :=
      List.length_map _
    rw [hRows]
    exact initial?_eq_some (hLength ▸ hPositive) m.start m.input

/-
  Calls with rules of all lengths. The first is accepted; the
  others have too few symbols to read, too many to write, and
  no movements.
-/
def callsWithMisfits : List Call :=
  [.edit
      (.register
        { state := "p"
          read := [Symbol.wildcard, Symbol.blank]
          nextState := "p"
          write := [Symbol.wildcard, Symbol.wildcard]
          moves := [.right, .left] }),
    .edit
      (.register
        { state := "p"
          read := ['a']
          nextState := "p"
          write := ['a', 'a']
          moves := [.stay, .stay] }),
    .step,
    .edit (.setMode .strict),
    .edit
      (.register
        { state := "p"
          read := ['a', 'a']
          nextState := "p"
          write := ['a', 'a', 'a']
          moves := [.stay, .stay] }),
    .reset,
    .run 1,
    .edit
      (.register
        { state := "q"
          read := ['a', 'b']
          nextState := "p"
          write := ['a', 'a']
          moves := [] })]

/-
  The accepted rule gives one action for each symbol. The next
  step is taken on both tapes, and moves over the front of the
  second one.
-/
theorem stored_rules_after_callsWithMisfits :
    ∃ first,
      create "m" 2 ['a', 'b'] ["p"] "p" ["p"] = .ok first ∧
        let m := first.performAll callsWithMisfits
        m.table.size = 3 ∧
          m.configuration.tapes.length = 2 ∧
          m.table.lookup "p" ['a'] = none ∧
          IndexedTape.step? m.table m.state m.rows =
            some
              (.ok
                ("p",
                  [⟨['a', 'b', '_'], 2⟩,
                    ⟨['_', 'b', 'a'], 0⟩])) := by
  have hCreate :
      create "m" 2 ['a', 'b'] ["p"] "p" ["p"] = .ok _ :=
    rfl
  rcases
      stored_rules_fit_all_tapes hCreate callsWithMisfits with
    ⟨_hPositive, hLength, _hHeads, _hBound, hOther, _hActs,
      hStep, _hRun, _hInitial, _hReset⟩
  refine ⟨_, hCreate, by decide, hLength, ?_, ?_⟩
  · exact hOther "p" ['a'] (by decide)
  · rw [hStep]
    rfl

end Machine

end MultiTape
