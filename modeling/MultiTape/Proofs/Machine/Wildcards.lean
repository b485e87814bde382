import MultiTape.Proofs.Machine.InfiniteTapes

/-
  This file shows that no machine brings a wildcard onto a tape.
  Its table neither reads nor writes one, so that a wildcard can
  only come from the input, and stays in its cell for good,
  since no action can be taken while a head is on it. To say in
  which cell that is, the way of the control head is followed
  from the start of the input.

  Key definitions include:
    * `Table.IsConcrete`
    * `Tape.WildcardsOf`
    * `Machine.drift`
    * `Machine.headAfterAll`
    * `Machine.Retains`

  Main statements:
    * `Table.IsConcrete.edit`
    * `Tape.WildcardsOf.act`
    * `Machine.Reachable.isConcrete`
    * `Machine.Retains.performAll`
    * `Machine.wildcards_are_those_of_the_input`
-/

namespace MultiTape

------------------------------------------------------------
-- Tables Without Wildcards
------------------------------------------------------------

namespace Table

/- Wildcards are neither read nor written. -/
def IsConcrete
    (t : Table) : Prop :=
  t.Holds fun key a =>
    Symbol.wildcard ∉ key.read ∧ Symbol.wildcard ∉ a.write

/- No wildcard is left in the rules that a rule stands for. -/
theorem not_hasWildcard_of_mem_expand
    {t : Table}
    {r rule : Rule}
    (hMem : rule ∈ t.expand r) :
    ¬ rule.HasWildcard := by
  rcases mem_expand_cases hMem with
    ⟨hPlain, rfl⟩ | ⟨c, hSymbol, rfl⟩
  · exact hPlain
  · apply Rule.not_hasWildcard_substitute
    rintro rfl
    exact t.alphabet.wildcard_not_mem hSymbol

/- An edit brings no wildcard into a table. -/
theorem IsConcrete.edit
    {t : Table}
    (hTable : t.IsConcrete)
    (e : Edit) :
    (t.edit e).IsConcrete := by
  apply Holds.edit hTable
  intro r _hEdit _hFits rule hMem
  have hPlain := not_hasWildcard_of_mem_expand hMem
  exact not_or.mp hPlain

end Table

------------------------------------------------------------
-- Symbols In Cells
------------------------------------------------------------

namespace Tape

/- An action brings at most its symbol and a blank onto a tape. -/
theorem mem_cells_act
    {t : Tape}
    {s c : Symbol}
    {d : Move}
    (hMem : c ∈ (t.act s d).cells) :
    c = s ∨ c = Symbol.blank ∨ c ∈ t.cells := by
  rcases t with ⟨left, focus, right⟩
  cases d with
  | stay =>
      simp only [act, write, shift, cells, List.mem_append,
        List.mem_reverse, List.mem_cons] at hMem ⊢
      tauto
  | left =>
      cases left <;>
        simp only [act, write, shift, cells, List.mem_append,
          List.mem_reverse, List.mem_cons] at hMem ⊢ <;>
        tauto
  | right =>
      cases right <;>
        simp only [act, write, shift, cells, List.mem_append,
          List.mem_reverse, List.mem_cons] at hMem ⊢ <;>
        tauto

/-
  What holds of the blank, of all symbols on some tapes and of
  all symbols to be written holds of all symbols on the tapes
  after the action.
-/
theorem forall_cells_actAll
    {S : Symbol → Prop}
    {ts : List Tape}
    {ss : List Symbol}
    {ds : List Move}
    (hBlank : S Symbol.blank)
    (hWrite : ∀ s ∈ ss, S s)
    (hCells : ∀ t ∈ ts, ∀ c ∈ t.cells, S c) :
    ∀ t ∈ actAll ts ss ds, ∀ c ∈ t.cells, S c := by
  fun_induction actAll ts ss ds with
  | case1 t ts s ss d ds ih =>
      rw [List.forall_mem_cons] at hWrite hCells ⊢
      refine ⟨?_, ih hWrite.2 hCells.2⟩
      intro c hMem
      rcases mem_cells_act hMem with rfl | rfl | hOld
      · exact hWrite.1
      · exact hBlank
      · exact hCells.1 c hOld
  | case2 => exact hCells

end Tape

/- The work tapes after an action. -/
theorem Configuration.work_apply
    (c : Configuration)
    (a : Action) :
    (c.apply a).work =
      Tape.actAll c.work a.write.tail a.moves.tail := by
  have hTapes := congrArg List.tail (c.tapes_apply a)
  rw [tapes, List.tail_cons] at hTapes
  rw [hTapes]
  cases a.write with
  | nil => simp [tapes, Tape.actAll]
  | cons s ss =>
      cases a.moves with
      | nil => simp [tapes, Tape.actAll]
      | cons d ds => rfl

------------------------------------------------------------
-- Places Of Wildcards
------------------------------------------------------------

namespace Tape

/-
  The wildcards on the tape are exactly those of a word, if the
  head is this far from the start of the word.
-/
def WildcardsOf
    (t : Tape)
    (word : List Symbol)
    (p : Int) : Prop :=
  ∀ i : Int,
    t.view i = Symbol.wildcard ↔
      ∃ n : Nat,
        word[n]? = some Symbol.wildcard ∧ (n : Int) = p + i

/- Where a list ends there is no wildcard. -/
theorem getD_blank_eq_wildcard_iff
    {symbols : List Symbol}
    {n : Nat} :
    symbols.getD n Symbol.blank = Symbol.wildcard ↔
      symbols[n]? = some Symbol.wildcard := by
  have hNe := Symbol.blank_ne_wildcard
  cases hSymbol : symbols[n]? with
  | none => simp [List.getD_eq_getElem?_getD, hSymbol, hNe]
  | some c => simp [List.getD_eq_getElem?_getD, hSymbol]

/- In the beginning the head is at the start of the input. -/
theorem wildcardsOf_ofInput
    (input : List Symbol) :
    (ofInput input).WildcardsOf input 0 := by
  intro i
  rw [view_ofInput]
  by_cases hRight : 0 ≤ i
  · rw [if_pos hRight, getD_blank_eq_wildcard_iff]
    constructor
    · intro hInput
      exact ⟨i.toNat, hInput, by omega⟩
    · rintro ⟨n, hInput, hPlace⟩
      have hIndex : i.toNat = n := by
        omega
      rw [hIndex]
      exact hInput
  · rw [if_neg hRight]
    constructor
    · intro hEq
      exact absurd hEq Symbol.blank_ne_wildcard
    · rintro ⟨n, _hInput, hPlace⟩
      omega

/-
  An action that overwrites no wildcard and writes none leaves
  all wildcards in their places.
-/
theorem WildcardsOf.act
    {t : Tape}
    {word : List Symbol}
    {p : Int}
    {s : Symbol}
    (hTape : t.WildcardsOf word p)
    (hRead : t.read ≠ Symbol.wildcard)
    (hWrite : s ≠ Symbol.wildcard)
    (d : Move) :
    (t.act s d).WildcardsOf word (p + d.offset) := by
  intro i
  rw [view_act, Function.update_apply, Int.add_assoc,
    Int.add_comm d.offset]
  by_cases hHead : i + d.offset = 0
  · have hNone := (hTape 0).not.mp hRead
    rw [if_pos hHead, hHead]
    exact iff_of_false hWrite hNone
  · rw [if_neg hHead]
    exact hTape (i + d.offset)

/- The cells of a tape that hold a wildcard. -/
theorem WildcardsOf.getElem?_cells_eq_some_iff
    {t : Tape}
    {word : List Symbol}
    {p : Int}
    (hTape : t.WildcardsOf word p)
    (i : Nat) :
    t.cells[i]? = some Symbol.wildcard ↔
      ∃ n : Nat,
        word[n]? = some Symbol.wildcard ∧
          (i : Int) = t.head - p + n := by
  have hCell :
      t.view (i - t.head) = t.cells.getD i Symbol.blank := by
    have hPlace : (t.head : Int) + (i - t.head) = i := by
      omega
    rw [view_eq_getD, hPlace, if_pos (Int.natCast_nonneg i),
      Int.toNat_natCast]
  rw [← getD_blank_eq_wildcard_iff, ← hCell, hTape]
  refine exists_congr fun n => and_congr_right' ?_
  omega

end Tape

------------------------------------------------------------
-- The Way Of The Control Head
------------------------------------------------------------

/- What an action does to the control head. -/
def Action.controlMove
    (a : Action) : Move :=
  a.moves.headD .stay

namespace Machine

/- How far the control head gets in a number of steps. -/
def drift
    (m : Machine) : Nat → Int
  | 0 => 0
  | n + 1 =>
      match m.table.lookup m.state m.symbols with
      | none => 0
      | some a => a.controlMove.offset + (m.take a).drift n

/-
  How far the control head is from the start of the input after
  a call, if it was at a distance before.
-/
def headAfter
    (m : Machine)
    (p : Int) : Call → Int
  | .edit _ => p
  | .setMaxSteps _ => p
  | .step => p + m.drift 1
  | .run fuel => p + m.drift (m.run fuel).trace.length
  | .reset => 0

/- How far it is after calls in order. -/
def headAfterAll
    (m : Machine)
    (p : Int) : List Call → Int
  | [] => p
  | call :: calls =>
      (m.perform call).headAfterAll (m.headAfter p call) calls

/- The way of a step and of those after it. -/
theorem drift_succ_of_lookup_eq_some
    {m : Machine}
    {a : Action}
    (hLookup : m.table.lookup m.state m.symbols = some a)
    (n : Nat) :
    m.drift (n + 1) =
      a.controlMove.offset + (m.take a).drift n := by
  rw [drift, hLookup]

/- Without an action the head stays. -/
theorem drift_succ_of_lookup_eq_none
    {m : Machine}
    (hLookup : m.table.lookup m.state m.symbols = none)
    (n : Nat) :
    m.drift (n + 1) = 0 := by
  rw [drift, hLookup]

------------------------------------------------------------
-- Machines That Can Come About
------------------------------------------------------------

/- No wildcard is read or written, and none is on a work tape. -/
structure Clean
    (m : Machine) : Prop where
  table : m.table.IsConcrete
  work :
    ∀ t ∈ m.configuration.work, ∀ c ∈ t.cells,
      c ≠ Symbol.wildcard

/- In the beginning no wildcard is on a work tape. -/
theorem forall_work_initial
    (tapes : Nat)
    (start : State)
    (input : List Symbol) :
    ∀ t ∈ (Configuration.initial tapes start input).work,
      ∀ c ∈ t.cells, c ≠ Symbol.wildcard := by
  intro t hTape c hCell
  have hBlank : t = Tape.blank :=
    List.eq_of_mem_replicate hTape
  rw [hBlank] at hCell
  rw [List.mem_singleton.mp hCell]
  exact Symbol.blank_ne_wildcard

/- An action without wildcards brings none onto a work tape. -/
theorem Clean.take
    {m : Machine}
    {a : Action}
    (hClean : m.Clean)
    (hLookup : m.table.lookup m.state m.symbols = some a) :
    (m.take a).Clean := by
  have hWrite := (hClean.table _ _ _ hLookup).2
  have hRest :
      ∀ c ∈ a.write.tail, c ≠ Symbol.wildcard := by
    rintro c hMem rfl
    exact hWrite (List.mem_of_mem_tail hMem)
  refine ⟨hClean.table, ?_⟩
  rw [Machine.take, Configuration.work_apply]
  exact
    Tape.forall_cells_actAll Symbol.blank_ne_wildcard hRest
      hClean.work

/- Every machine that can come about is clean. -/
theorem Reachable.clean
    {m : Machine}
    (hReachable : m.Reachable) :
    m.Clean := by
  refine hReachable.rec_on_steps ?_ ?_ ?_ ?_ ?_
  · intro name tapes input states start accept m hNew
    unfold Machine.create at hNew
    split at hNew
    · cases hNew
    · cases hNew
      exact
        ⟨Table.holds_ofSymbols _ tapes input,
          forall_work_initial tapes start input⟩
  · intro m e hClean
    exact ⟨hClean.table.edit e, hClean.work⟩
  · intro m limit hClean
    exact ⟨hClean.table, hClean.work⟩
  · intro m next s hClean hStep
    rcases step_eq_ok_iff.mp hStep with
      ⟨a, hLookup, rfl, _hs⟩
    exact hClean.take hLookup
  · intro m hClean
    exact ⟨hClean.table, forall_work_initial _ _ _⟩

/- No step can be taken while a head is on a wildcard. -/
theorem Clean.lookup_eq_none
    {m : Machine}
    (hClean : m.Clean)
    (hHead :
      ∃ t ∈ m.configuration.tapes, t.read = Symbol.wildcard) :
    m.table.lookup m.state m.symbols = none := by
  rcases hHead with ⟨t, hTape, hRead⟩
  have hMem : Symbol.wildcard ∈ m.symbols :=
    List.mem_map.mpr ⟨t, hTape, hRead⟩
  rw [Option.eq_none_iff_forall_ne_some]
  intro a hLookup
  exact (hClean.table _ _ _ hLookup).1 hMem

------------------------------------------------------------
-- The Wildcards Of The Input
------------------------------------------------------------

/-
  The machine is one for the input, whose wildcards are those on
  the control tape if the head is this far from its start.
-/
structure Retains
    (m : Machine)
    (input : List Symbol)
    (p : Int) : Prop where
  input_eq : m.input = input
  control : m.configuration.control.WildcardsOf input p

/- A step leaves the wildcards of the input in their cells. -/
theorem Retains.take
    {m : Machine}
    {input : List Symbol}
    {p : Int}
    {a : Action}
    (hRetains : m.Retains input p)
    (hReachable : m.Reachable)
    (hLookup : m.table.lookup m.state m.symbols = some a) :
    (m.take a).Retains input (p + a.controlMove.offset) := by
  have hClean := hReachable.clean
  have hFits := hReachable.fits
  have hRead :
      m.configuration.control.read ≠ Symbol.wildcard := by
    intro hWildcard
    have hNone :=
      hClean.lookup_eq_none
        ⟨m.configuration.control, List.mem_cons_self,
          hWildcard⟩
    rw [hLookup] at hNone
    cases hNone
  -- The action has an entry for the control tape, as it has
  -- one for every tape.
  rcases hFits.table _ _ _ hLookup with
    ⟨_hRead, hWrite, hMoves⟩
  rw [← hFits.length] at hWrite hMoves
  rcases List.exists_cons_of_length_eq_add_one hWrite with
    ⟨s, ss, hSymbols⟩
  rcases List.exists_cons_of_length_eq_add_one hMoves with
    ⟨d, ds, hDirections⟩
  have hSymbol : s ≠ Symbol.wildcard := by
    rintro rfl
    have hNotMem := (hClean.table _ _ _ hLookup).2
    rw [hSymbols] at hNotMem
    exact hNotMem List.mem_cons_self
  have hControl :
      (m.take a).configuration.control =
        m.configuration.control.act s d := by
    simp only [Machine.take, Configuration.apply, hSymbols,
      hDirections]
  refine ⟨hRetains.input_eq, ?_⟩
  rw [hControl, Action.controlMove, hDirections]
  exact hRetains.control.act hRead hSymbol d

/- So do any number of steps. -/
theorem Retains.after?
    {m last : Machine}
    {input : List Symbol}
    {p : Int}
    {n : Nat}
    (hRetains : m.Retains input p)
    (hReachable : m.Reachable)
    (hAfter : m.after? n = some last) :
    last.Retains input (p + m.drift n) := by
  induction n generalizing m p with
  | zero =>
      cases hAfter
      rw [drift, Int.add_zero]
      exact hRetains
  | succ n ih =>
      rcases after?_succ_eq_some_iff.mp hAfter with
        ⟨next, s, hStep, hRest⟩
      have hNext := hReachable.step hStep
      rcases step_eq_ok_iff.mp hStep with
        ⟨a, hLookup, rfl, _hs⟩
      rw [drift_succ_of_lookup_eq_some hLookup, ← Int.add_assoc]
      exact
        ih (hRetains.take hReachable hLookup) hNext hRest

/- So does any call; a reset writes the input anew. -/
theorem Retains.perform
    {m : Machine}
    {input : List Symbol}
    {p : Int}
    (hRetains : m.Retains input p)
    (hReachable : m.Reachable)
    (call : Call) :
    (m.perform call).Retains input (m.headAfter p call) := by
  cases call with
  | edit e =>
      change (m.edit e).Retains input p
      rw [edit_eq]
      exact ⟨hRetains.input_eq, hRetains.control⟩
  | setMaxSteps limit =>
      exact ⟨hRetains.input_eq, hRetains.control⟩
  | step =>
      cases hStep : m.step with
      | error e =>
          have hNone := (step_eq_error_iff.mp hStep).1
          simpa [Machine.perform, headAfter, hStep,
            drift_succ_of_lookup_eq_none hNone] using hRetains
      | ok q =>
          have hAfter : m.after? 1 = some q.1 :=
            after?_succ_of_step_eq_ok hStep 0
          simpa [Machine.perform, headAfter, hStep] using
            hRetains.after? hReachable hAfter
  | run fuel =>
      exact
        hRetains.after? hReachable
          (after?_length_trace_run m fuel)
  | reset =>
      refine ⟨hRetains.input_eq, ?_⟩
      rw [← hRetains.input_eq]
      exact Tape.wildcardsOf_ofInput m.input

/- And so do calls in order. -/
theorem Retains.performAll
    {m : Machine}
    {input : List Symbol}
    {p : Int}
    (hRetains : m.Retains input p)
    (hReachable : m.Reachable)
    (calls : List Call) :
    (m.performAll calls).Retains input
      (m.headAfterAll p calls) := by
  induction calls generalizing m p with
  | nil => exact hRetains
  | cons call calls ih =>
      exact
        ih (hRetains.perform hReachable call)
          (hReachable.perform call)

/- A new machine bears its input, with the head at the start. -/
theorem retains_of_create_eq_ok
    {name : String}
    {tapes : Nat}
    {input : List Symbol}
    {states : List State}
    {start : State}
    {accept : List State}
    {m : Machine}
    (hCreate :
      create name tapes input states start accept = .ok m) :
    m.Retains input 0 := by
  unfold create at hCreate
  split at hCreate
  · cases hCreate
  · cases hCreate
    exact ⟨rfl, Tape.wildcardsOf_ofInput input⟩

/-
  No machine brings a wildcard onto a tape, whatever is done to
  it after its creation. Wildcards stand for no wildcard; the
  table neither reads nor writes one; none is on a work tape;
  and on the control tape they are in exactly those cells that
  held one in the input, counted from where the input starts.
  While a head is on a wildcard no step is taken and nothing
  changes. Without a wildcard in the input there never is one.
-/
theorem wildcards_are_those_of_the_input
    {name : String}
    {tapes : Nat}
    {input : List Symbol}
    {states : List State}
    {start : State}
    {accept : List State}
    {first : Machine}
    (hCreate :
      create name tapes input states start accept = .ok first)
    (calls : List Call) :
    let m := first.performAll calls
    let control := m.configuration.control
    let startOfInput :=
      (control.head : Int) - first.headAfterAll 0 calls
    (Symbol.blank ∈ m.table.alphabet ∧
        Symbol.wildcard ∉ m.table.alphabet) ∧
      (∀ state symbols a,
        m.table.lookup state symbols = some a →
          Symbol.wildcard ∉ symbols ∧
            Symbol.wildcard ∉ a.write) ∧
      (∀ t ∈ m.configuration.work,
        Symbol.wildcard ∉ t.cells) ∧
      (∀ i : Nat,
        control.cells[i]? = some Symbol.wildcard ↔
          ∃ n : Nat,
            input[n]? = some Symbol.wildcard ∧
              (i : Int) = startOfInput + n) ∧
      ((∃ t ∈ m.configuration.tapes,
          t.read = Symbol.wildcard) →
        m.step = .error (.noTransition m.configuration.key) ∧
          m.perform .step = m) ∧
      (Symbol.wildcard ∉ input →
        ∀ t ∈ m.configuration.tapes,
          Symbol.wildcard ∉ t.cells) := by
  intro m control startOfInput
  have hFirst := Reachable.create hCreate
  have hClean := (hFirst.performAll calls).clean
  have hRetains :=
    (retains_of_create_eq_ok hCreate).performAll hFirst calls
  have hWork :
      ∀ t ∈ m.configuration.work,
        Symbol.wildcard ∉ t.cells := by
    intro t hTape hMem
    exact hClean.work t hTape _ hMem rfl
  have hControl :=
    hRetains.control.getElem?_cells_eq_some_iff
  refine
    ⟨⟨m.table.alphabet.blank_mem,
        m.table.alphabet.wildcard_not_mem⟩,
      hClean.table, hWork, hControl, ?_, ?_⟩
  · intro hHead
    have hStep :
        m.step = .error (.noTransition m.configuration.key) :=
      step_eq_error_iff.mpr
        ⟨hClean.lookup_eq_none hHead, rfl⟩
    exact ⟨hStep, by simp [Machine.perform, hStep]⟩
  · intro hInput t hTape
    rcases List.mem_cons.mp hTape with rfl | hTape
    · intro hMem
      rcases List.getElem?_of_mem hMem with ⟨i, hCell⟩
      rcases (hControl i).mp hCell with ⟨n, hSymbol, _hi⟩
      exact hInput (List.mem_of_getElem? hSymbol)
    · exact hWork t hTape

/-
  Calls after which the first symbol of the input is another
  one, the control tape has grown to the left, and its head is
  on the wildcard of the input.
-/
def callsOntoWildcard : List Call :=
  [.edit (.extendAlphabet [Symbol.wildcard, 'x']),
    .edit
      (.register
        { state := "q"
          read := [Symbol.wildcard, Symbol.blank]
          nextState := "q"
          write := [Symbol.wildcard, Symbol.blank]
          moves := [.right, .stay] }),
    .edit
      (.register
        { state := "q"
          read := ['a', Symbol.blank]
          nextState := "q"
          write := [Symbol.wildcard, Symbol.wildcard]
          moves := [.left, .right] }),
    .run 5,
    .step]

/- The wildcard is where it was, one cell after the new start. -/
theorem wildcard_stays_after_callsOntoWildcard :
    ∃ first,
      create "m" 2 ['a', Symbol.wildcard] ["q"] "q" ["q"] =
          .ok first ∧
        let m := first.performAll callsOntoWildcard
        m.configuration.tapes.map Tape.cells =
            [['_', 'x', '*'], ['x', '_']] ∧
          first.headAfterAll 0 callsOntoWildcard = 1 ∧
          m.configuration.control.cells[2]? =
            some Symbol.wildcard ∧
          m.step =
            .error (.noTransition ⟨"q", ['*', '_']⟩) ∧
          m.perform .step = m := by
  have hCreate :
      create "m" 2 ['a', Symbol.wildcard] ["q"] "q" ["q"] =
        .ok _ :=
    rfl
  have hAll :=
    wildcards_are_those_of_the_input hCreate
      callsOntoWildcard
  rcases hAll with
    ⟨_hAlphabet, _hTable, _hWork, hControl, hStuck, _hFree⟩
  have hCell := (hControl 2).mpr ⟨1, rfl, by decide⟩
  have hStep :=
    hStuck ⟨_, List.mem_cons_self, by decide⟩
  exact ⟨_, hCreate, by decide, by decide, hCell, hStep⟩

end Machine

end MultiTape
