import MultiTape.Proofs.Description.Buildable
import MultiTape.Proofs.Machine.Halting
import MultiTape.Proofs.Machine.Wildcards
import MultiTape.Proofs.Table.RawRules

/-
  This file says what an examined description promises for the
  work of its machine. The examination looks at rules as they
  are written, and the machine works with what became of them.
  So a property of all actions is drawn from the rules, and from
  it a property of all configurations. If nothing was found, the
  machine keeps to declared states. If no written symbol was
  found to be unmatched, only a wildcard of the input can be on
  a tape without a wildcard standing for it.

  Key definitions include:
    * `Description.Declares`
    * `Machine.IsOf`
    * `Machine.Obeys`

  Main statements:
    * `Description.declares_of_findings_eq_nil`
    * `Machine.Obeys.performAll`
    * `Machine.examined_machine_keeps_to_declared_states`
    * `Machine.unmatched_only_with_wildcard_in_input`
-/

namespace MultiTape

------------------------------------------------------------
-- Findings
------------------------------------------------------------

/- Sorting leaves nothing only of nothing. -/
theorem ascending_eq_nil_iff
    {α : Type}
    [LT α]
    [DecidableLT α]
    [DecidableEq α]
    {as : List α} :
    ascending as = [] ↔ as = [] := by
  simp only [List.eq_nil_iff_forall_not_mem, mem_ascending]

namespace Description

/- There is no complaint about nothing. -/
theorem complain_eq_none_iff
    {α : Type}
    {report : List α → Finding}
    {items : List α} :
    complain report items = none ↔ items = [] := by
  cases items <;> simp [complain]

/- All states of a list are declared. -/
theorem undeclared_eq_nil_iff
    {d : Description}
    {states : List State} :
    d.undeclared states = [] ↔ ∀ s ∈ states, s ∈ d.states := by
  simp [undeclared_eq, List.filter_eq_nil_iff]

/- The states that a description uses are declared. -/
structure Declares
    (d : Description) : Prop where
  start : d.start ∈ d.states
  accept : ∀ s ∈ d.accept, s ∈ d.states
  rules :
    ∀ r ∈ d.rules, r.state ∈ d.states ∧ r.nextState ∈ d.states

/- If nothing is found, all states are declared. -/
theorem declares_of_findings_eq_nil
    {d : Description}
    (hFindings : d.findings = []) :
    d.Declares := by
  have hChecks := List.filterMap_eq_nil_iff.mp hFindings
  simp only [List.forall_mem_cons] at hChecks
  rcases hChecks with
    ⟨_hArity, hStart, hAccept, hStates, _hRule, _hWritten⟩
  constructor
  · unfold checkStart at hStart
    split at hStart
    · next hMem => exact hMem
    · cases hStart
  · exact
      undeclared_eq_nil_iff.mp
        (complain_eq_none_iff.mp hAccept)
  · have hAll :=
      undeclared_eq_nil_iff.mp
        (ascending_eq_nil_iff.mp
          (complain_eq_none_iff.mp hStates))
    intro r hRule
    constructor
    · apply hAll
      exact List.mem_flatMap.mpr ⟨r, hRule, by simp⟩
    · apply hAll
      exact List.mem_flatMap.mpr ⟨r, hRule, by simp⟩

/-
  Where wildcards are used and no symbol is found to be
  unmatched, rules write nothing but symbols of the alphabet and
  wildcards.
-/
theorem mem_alphabet_of_mem_write
    {d : Description}
    (hWildcard : ∃ r ∈ d.rules, r.HasWildcard)
    (hFindings :
      ∀ symbols, .unmatchedSymbols symbols ∉ d.findings)
    {r : Rule}
    (hRule : r ∈ d.rules)
    {c : Symbol}
    (hWritten : c ∈ r.write)
    (hNe : c ≠ Symbol.wildcard) :
    c ∈ Alphabet.ofSymbols d.input := by
  have hCheck : d.checkWritten = none := by
    rw [Option.eq_none_iff_forall_ne_some]
    intro f hSome
    have hFound : f ∈ d.findings :=
      List.mem_filterMap.mpr ⟨checkWritten, by simp, hSome⟩
    unfold checkWritten at hSome
    rw [if_pos hWildcard] at hSome
    rw [eq_of_complain_eq_some hSome] at hFound
    exact hFindings _ hFound
  unfold checkWritten at hCheck
  rw [if_pos hWildcard, complain_eq_none_iff,
    ascending_eq_nil_iff, List.filter_eq_nil_iff] at hCheck
  by_contra hOutside
  have hMem : c ∈ d.rules.flatMap Rule.write :=
    List.mem_flatMap.mpr ⟨r, hRule, hWritten⟩
  exact hCheck c hMem (decide_eq_true ⟨hNe, hOutside⟩)

end Description

------------------------------------------------------------
-- Expansions
------------------------------------------------------------

namespace Table

/- All expansions lead to the state that the rule leads to. -/
theorem nextState_of_mem_expand
    {t : Table}
    {r rule : Rule}
    (hMem : rule ∈ t.expand r) :
    rule.nextState = r.nextState := by
  rcases mem_expand_cases hMem with
    ⟨_hPlain, rfl⟩ | ⟨c, _hSymbol, rfl⟩
  · rfl
  · rfl

/-
  An expansion writes symbols of the alphabet, and those that
  the rule writes but for the wildcard.
-/
theorem mem_write_of_mem_expand
    {t : Table}
    {r rule : Rule}
    {c : Symbol}
    (hMem : rule ∈ t.expand r)
    (hWritten : c ∈ rule.write) :
    c ∈ t.alphabet ∨
      (c ∈ r.write ∧ c ≠ Symbol.wildcard) := by
  have hNe : c ≠ Symbol.wildcard := by
    rintro rfl
    exact not_hasWildcard_of_mem_expand hMem (Or.inr hWritten)
  rcases mem_expand_cases hMem with
    ⟨_hPlain, rfl⟩ | ⟨s, hSymbol, rfl⟩
  · exact Or.inr ⟨hWritten, hNe⟩
  · rcases List.mem_map.mp hWritten with
      ⟨x, hOriginal, hFill⟩
    split at hFill
    · rw [← hFill]
      exact Or.inl hSymbol
    · rw [← hFill] at hNe ⊢
      exact Or.inr ⟨hOriginal, hNe⟩

/- Only the alphabet of a table has a part in expansions. -/
theorem expand_congr
    {t u : Table}
    (hAlphabet : t.alphabet = u.alphabet)
    (r : Rule) :
    t.expand r = u.expand r := by
  unfold expand
  rw [hAlphabet]

end Table

------------------------------------------------------------
-- Machines Of A Description
------------------------------------------------------------

namespace Machine

/- The machine has the input and the states of the description. -/
structure IsOf
    (m : Machine)
    (d : Description) : Prop where
  input : m.input = d.input
  states : m.states = d.states
  start : m.start = d.start
  accept : m.accept = d.accept
  alphabet : m.table.alphabet = Alphabet.ofSymbols d.input

/-
  The machine is one of the description, and there is a property
  of all of its actions and one of where it is.
-/
structure Obeys
    (m : Machine)
    (d : Description)
    (Q : Key → Action → Prop)
    (C : Configuration → Prop) : Prop where
  isOf : m.IsOf d
  table : m.table.Holds Q
  configuration : C m.configuration

section Obeying

variable {d : Description}
variable {Q : Key → Action → Prop}
variable {C : Configuration → Prop}

/- Registering rules keeps what holds of their expansions. -/
theorem Obeys.registerAll
    {m last : Machine}
    {rules : List Rule}
    (hObeys : m.Obeys d Q C)
    (hRules :
      ∀ r ∈ rules,
        ∀ rule ∈ (Table.ofSymbols d.tapes d.input).expand r,
          Q rule.key rule.action)
    (hOk : (m.registerAll rules).result = .ok last) :
    last.Obeys d Q C := by
  induction rules generalizing m with
  | nil =>
      cases hOk
      exact hObeys
  | cons r rules ih =>
      unfold Machine.registerAll at hOk
      cases hRegister : m.table.register r with
      | error e =>
          rw [register_of_table_register_eq_error hRegister]
            at hOk
          cases hOk
      | ok p =>
          rcases p with ⟨next, g⟩
          rw [register_of_table_register_eq_ok hRegister]
            at hOk
          have hExpand :
              m.table.expand r =
                (Table.ofSymbols d.tapes d.input).expand r :=
            Table.expand_congr hObeys.isOf.alphabet r
          have hTable : next.Holds Q := by
            apply hObeys.table.register hRegister
            rw [hExpand]
            exact hRules r List.mem_cons_self
          have hAlphabet :
              next.alphabet = Alphabet.ofSymbols d.input := by
            rw [(Table.register_eq_ok_iff.mp
              hRegister).2.2.1]
            exact hObeys.isOf.alphabet
          refine
            ih (m := { m with table := next }) ?_ ?_ hOk
          · exact
              ⟨{ hObeys.isOf with alphabet := hAlphabet },
                hTable, hObeys.configuration⟩
          · intro q hq
            exact hRules q (List.mem_cons_of_mem r hq)

/- A machine that was built obeys its rules from the beginning. -/
theorem obeys_of_result_ofDescription_eq_ok
    {m : Machine}
    (hRules :
      ∀ r ∈ d.rules,
        ∀ rule ∈ (Table.ofSymbols d.tapes d.input).expand r,
          Q rule.key rule.action)
    (hInitial :
      ∀ tapes, C (Configuration.initial tapes d.start d.input))
    (hBuild : (ofDescription d).result = .ok m) :
    m.Obeys d Q C := by
  unfold ofDescription create at hBuild
  split at hBuild
  · cases hBuild
  · next first hCreate =>
      split at hCreate
      · cases hCreate
      · cases hCreate
        refine Obeys.registerAll ?_ hRules hBuild
        exact
          ⟨⟨rfl, rfl, rfl, rfl, rfl⟩,
            Table.holds_ofSymbols Q d.tapes d.input,
            hInitial d.tapes⟩

/- A step keeps what actions keep. -/
theorem Obeys.step
    {m next : Machine}
    {s : Step}
    (hApply : ∀ c a, C c → Q c.key a → C (c.apply a))
    (hObeys : m.Obeys d Q C)
    (hStep : m.step = .ok (next, s)) :
    next.Obeys d Q C := by
  rcases step_eq_ok_iff.mp hStep with
    ⟨a, hLookup, rfl, _hs⟩
  have hAction : Q m.configuration.key a :=
    hObeys.table _ _ _ hLookup
  exact
    ⟨{ hObeys.isOf with }, hObeys.table,
      hApply _ a hObeys.configuration hAction⟩

/- Steps, limits and resets keep what actions keep. -/
theorem Obeys.performAll
    {m : Machine}
    {calls : List Call}
    (hInitial :
      ∀ tapes, C (Configuration.initial tapes d.start d.input))
    (hApply : ∀ c a, C c → Q c.key a → C (c.apply a))
    (hCalls : ∀ e, .edit e ∉ calls)
    (hObeys : m.Obeys d Q C) :
    (m.performAll calls).Obeys d Q C := by
  refine
    performAll_induction (P := fun m => m.Obeys d Q C)
      ?_ ?_ ?_ ?_ hObeys
  · intro m e hMem
    exact absurd hMem (hCalls e)
  · intro m limit hObeys
    exact
      ⟨{ hObeys.isOf with }, hObeys.table,
        hObeys.configuration⟩
  · intro m next s hObeys hStep
    exact hObeys.step hApply hStep
  · intro m hObeys
    refine ⟨{ hObeys.isOf with }, hObeys.table, ?_⟩
    rw [reset, hObeys.isOf.start, hObeys.isOf.input]
    exact hInitial _

/- So does any number of steps. -/
theorem Obeys.after?
    {m last : Machine}
    {n : Nat}
    (hApply : ∀ c a, C c → Q c.key a → C (c.apply a))
    (hObeys : m.Obeys d Q C)
    (hAfter : m.after? n = some last) :
    last.Obeys d Q C := by
  refine
    after?_induction (P := fun m => m.Obeys d Q C) ?_
      hAfter hObeys
  intro m next s hObeys hStep
  exact hObeys.step hApply hStep

end Obeying

------------------------------------------------------------
-- Declared States
------------------------------------------------------------

/- The machine is in a declared state and cannot leave them. -/
def KeepsTo
    (d : Description)
    (m : Machine) : Prop :=
  m.Obeys d (fun _ a => a.nextState ∈ d.states)
    (fun c => c.state ∈ d.states)

/- Steps keep to the declared states. -/
theorem KeepsTo.after?
    {d : Description}
    {m last : Machine}
    {n : Nat}
    (hKeeps : m.KeepsTo d)
    (hAfter : m.after? n = some last) :
    last.KeepsTo d := by
  refine Obeys.after? ?_ hKeeps hAfter
  intro c a _hState hNext
  rw [Configuration.state_apply]
  exact hNext

/- A machine whose states are declared keeps to them. -/
theorem keepsTo_performAll
    {d : Description}
    {m : Machine}
    {calls : List Call}
    (hDeclares : d.Declares)
    (hBuild : (ofDescription d).result = .ok m)
    (hCalls : ∀ e, .edit e ∉ calls) :
    (m.performAll calls).KeepsTo d := by
  have hInitial :
      ∀ tapes,
        (Configuration.initial tapes d.start d.input).state ∈
          d.states := by
    intro tapes
    exact hDeclares.start
  have hBuilt : m.KeepsTo d := by
    apply obeys_of_result_ofDescription_eq_ok ?_ hInitial hBuild
    intro r hRule rule hMem
    change rule.nextState ∈ d.states
    rw [Table.nextState_of_mem_expand hMem]
    exact (hDeclares.rules r hRule).2
  refine Obeys.performAll hInitial ?_ hCalls hBuilt
  intro c a _hState hNext
  rw [Configuration.state_apply]
  exact hNext

/- A declared state of the machine is one of the description. -/
theorem IsOf.isDeclared_iff
    {m : Machine}
    {d : Description}
    (hIsOf : m.IsOf d)
    {s : State} :
    m.IsDeclared s ↔ s ∈ d.states := by
  rw [IsDeclared, hIsOf.states]

/- A step is taken between declared states. -/
theorem KeepsTo.step
    {d : Description}
    {m next : Machine}
    {s : Step}
    (hKeeps : m.KeepsTo d)
    (hStep : m.step = .ok (next, s)) :
    s.state ∈ d.states ∧ s.nextState ∈ d.states := by
  rcases step_eq_ok_iff.mp hStep with
    ⟨a, hLookup, _hNext, rfl⟩
  exact ⟨hKeeps.configuration, hKeeps.table _ _ _ hLookup⟩

/-
  A machine whose description was examined without a finding
  keeps to the declared states, whatever steps, runs and resets
  are asked of it and whatever the limit. It is in a declared
  state; the steps it takes, alone or in a run, lead from a
  declared state to one; a declared state is named where no
  action is found; and a run accepts in a declared state that is
  accepting.
-/
theorem examined_machine_keeps_to_declared_states
    {d : Description}
    {m : Machine}
    {calls : List Call}
    (hFindings : d.findings = [])
    (hBuild : (ofDescription d).result = .ok m)
    (hCalls : ∀ e, .edit e ∉ calls) :
    let now := m.performAll calls
    (∀ s, now.IsDeclared s ↔ s ∈ d.states) ∧
      now.IsDeclared now.state ∧
      (∀ next s,
        now.step = .ok (next, s) →
          now.IsDeclared s.state ∧
            now.IsDeclared s.nextState) ∧
      (∀ key,
        now.step = .error (.noTransition key) →
          now.IsDeclared key.state) ∧
      (∀ fuel, ∀ entry ∈ (now.run fuel).trace,
        now.IsDeclared entry.step.state ∧
          now.IsDeclared entry.step.nextState) ∧
      (∀ key last,
        now.Returns (.ok (.missingTransition key)) last →
          now.IsDeclared key.state) ∧
      ∀ last,
        now.Returns (.ok .accept) last →
          now.IsDeclared last.state ∧ last.state ∈ d.accept := by
  intro now
  have hDeclares :=
    Description.declares_of_findings_eq_nil hFindings
  have hNow : now.KeepsTo d :=
    keepsTo_performAll hDeclares hBuild hCalls
  have hIff : ∀ s, now.IsDeclared s ↔ s ∈ d.states := by
    intro s
    exact hNow.isOf.isDeclared_iff
  refine ⟨hIff, ?_⟩
  simp only [hIff]
  refine ⟨hNow.configuration, ?_, ?_, ?_, ?_, ?_⟩
  · intro next s hStep
    exact hNow.step hStep
  · intro key hStep
    rcases step_eq_error_iff.mp hStep with ⟨_hLookup, hKey⟩
    cases hKey
    exact hNow.configuration
  · intro fuel entry hMem
    rcases exists_after?_of_mem_trace_run hMem with
      ⟨n, before, next, hAfter, hStep, _hLast⟩
    exact (hNow.after? hAfter).step hStep
  · intro key last hReturns
    rcases returns_missingTransition_iff.mp hReturns with
      ⟨⟨n, hSticks⟩, rfl⟩
    exact (hNow.after? hSticks.reached).configuration
  · intro last hReturns
    rcases (returns_verdict_iff (Or.inl rfl)).mp hReturns with
      ⟨⟨n, hCompletes⟩, hVerdict⟩
    have hLast := hNow.after? hCompletes.reached
    have hAccept :=
      (eq_verdict_iff (Or.inl rfl)).mp hVerdict
    rw [hLast.isOf.accept] at hAccept
    exact ⟨hLast.configuration, hAccept.mp rfl⟩

/-
  A machine that goes to the end of its input. Its second rule
  takes one of the actions that the first one stands for.
-/
def scanner : Description :=
  { name := "scan"
    tapes := 1
    input := ['a', 'b']
    states := ["going", "done"]
    start := "going"
    accept := ["done"]
    mode := .overwrite
    rules :=
      [{ state := "going"
         read := [Symbol.wildcard]
         nextState := "going"
         write := [Symbol.wildcard]
         moves := [.right] },
       { state := "going"
         read := [Symbol.blank]
         nextState := "done"
         write := [Symbol.blank]
         moves := [.stay] }] }

/- It accepts in a declared state, also after a reset. -/
theorem scanner_accepts_in_declared_state :
    scanner.findings = [] ∧
      ∃ m last,
        (ofDescription scanner).result = .ok m ∧
          (m.performAll
            [.step, .reset, .setMaxSteps (some 3)]).Returns
              (.ok .accept) last ∧
          last.steps = 3 ∧
          last.IsDeclared last.state ∧
          last.state ∈ scanner.accept := by
  have hFindings : scanner.findings = [] := by
    decide
  have hBuild : (ofDescription scanner).result = .ok _ :=
    rfl
  have hCalls :
      ∀ e,
        Call.edit e ∉
          [.step, .reset, .setMaxSteps (some 3)] := by
    simp
  rcases
      examined_machine_keeps_to_declared_states hFindings
        hBuild hCalls with
    ⟨_hIff, _hState, _hStep, _hNone, _hTrace, _hMissing,
      hAccept⟩
  have hReturns := hAccept _ ⟨4, rfl, rfl⟩
  exact
    ⟨hFindings, _, _, hBuild, ⟨4, rfl, rfl⟩, rfl, hReturns⟩

end Machine

------------------------------------------------------------
-- Matched Symbols
------------------------------------------------------------

/- The input is on its tape, or a blank in its place. -/
theorem Tape.mem_cells_ofInput
    {input : List Symbol}
    {c : Symbol} :
    c ∈ (ofInput input).cells ↔
      c ∈ input ∨ (input = [] ∧ c = Symbol.blank) := by
  cases input <;> simp [ofInput, blank, cells]

/-
  Wildcards stand for every symbol on a tape, but for those that
  the input itself brings onto the control tape.
-/
structure Configuration.Matched
    (input : List Symbol)
    (c : Configuration) : Prop where
  control :
    ∀ s ∈ c.control.cells,
      s ∈ Alphabet.ofSymbols input ∨
        (s = Symbol.wildcard ∧ Symbol.wildcard ∈ input)
  work :
    ∀ t ∈ c.work, ∀ s ∈ t.cells,
      s ∈ Alphabet.ofSymbols input

namespace Configuration

/- In the beginning only the input is on a tape. -/
theorem matched_initial
    (tapes : Nat)
    (start : State)
    (input : List Symbol) :
    (initial tapes start input).Matched input := by
  constructor
  · intro s hMem
    rw [Alphabet.mem_ofSymbols]
    rcases Tape.mem_cells_ofInput.mp hMem with
      hInput | ⟨_hEmpty, rfl⟩
    · by_cases hWildcard : s = Symbol.wildcard
      · rw [hWildcard] at hInput
        exact Or.inr ⟨hWildcard, hInput⟩
      · exact Or.inl (Or.inr ⟨hInput, hWildcard⟩)
    · exact Or.inl (Or.inl rfl)
  · intro t hTape s hMem
    have hBlank : t = Tape.blank :=
      List.eq_of_mem_replicate hTape
    rw [hBlank] at hMem
    rw [List.mem_singleton.mp hMem]
    exact (Alphabet.ofSymbols input).blank_mem

/- An action that writes matched symbols keeps all matched. -/
theorem Matched.apply
    {input : List Symbol}
    {c : Configuration}
    {a : Action}
    (hMatched : c.Matched input)
    (hWrite : ∀ s ∈ a.write, s ∈ Alphabet.ofSymbols input) :
    (c.apply a).Matched input := by
  have hBlank := (Alphabet.ofSymbols input).blank_mem
  constructor
  · -- All tapes are as the control tape has to be, at least.
    have hTapes :
        ∀ t ∈ c.tapes, ∀ s ∈ t.cells,
          s ∈ Alphabet.ofSymbols input ∨
            (s = Symbol.wildcard ∧
              Symbol.wildcard ∈ input) := by
      refine List.forall_mem_cons.mpr ⟨hMatched.control, ?_⟩
      intro t hTape s hMem
      exact Or.inl (hMatched.work t hTape s hMem)
    have hAfter :
        ∀ t ∈ (c.apply a).tapes, ∀ s ∈ t.cells,
          s ∈ Alphabet.ofSymbols input ∨
            (s = Symbol.wildcard ∧
              Symbol.wildcard ∈ input) := by
      rw [tapes_apply]
      refine
        Tape.forall_cells_actAll (Or.inl hBlank) ?_ hTapes
      intro s hs
      exact Or.inl (hWrite s hs)
    exact hAfter _ List.mem_cons_self
  · have hRest :
        ∀ s ∈ a.write.tail, s ∈ Alphabet.ofSymbols input := by
      intro s hs
      exact hWrite s (List.mem_of_mem_tail hs)
    rw [work_apply]
    exact
      Tape.forall_cells_actAll hBlank hRest hMatched.work

end Configuration

namespace Machine

/-
  If the examination finds no unmatched symbol among those that
  are written, all tapes hold nothing but symbols that wildcards
  stand for, and wildcards of the input.
-/
theorem matched_performAll
    {d : Description}
    {m : Machine}
    {calls : List Call}
    (hWildcard : ∃ r ∈ d.rules, r.HasWildcard)
    (hFindings :
      ∀ symbols, .unmatchedSymbols symbols ∉ d.findings)
    (hBuild : (ofDescription d).result = .ok m)
    (hCalls : ∀ e, .edit e ∉ calls) :
    (m.performAll calls).IsOf d ∧
      (m.performAll calls).configuration.Matched d.input := by
  have hRules :
      ∀ r ∈ d.rules,
        ∀ rule ∈ (Table.ofSymbols d.tapes d.input).expand r,
          ∀ s ∈ rule.action.write,
            s ∈ Alphabet.ofSymbols d.input := by
    intro r hRule rule hMem s hWritten
    rcases Table.mem_write_of_mem_expand hMem hWritten with
      hSymbol | ⟨hOriginal, hNe⟩
    · exact hSymbol
    · exact
        Description.mem_alphabet_of_mem_write hWildcard
          hFindings hRule hOriginal hNe
  have hInitial :
      ∀ tapes,
        (Configuration.initial tapes d.start d.input).Matched
          d.input := by
    intro tapes
    exact Configuration.matched_initial tapes d.start d.input
  have hBuilt :
      m.Obeys d
        (fun _ a =>
          ∀ s ∈ a.write, s ∈ Alphabet.ofSymbols d.input)
        (fun c => c.Matched d.input) :=
    obeys_of_result_ofDescription_eq_ok hRules hInitial hBuild
  have hNow :=
    hBuilt.performAll hInitial
      (fun _c _a hMatched hWrite => hMatched.apply hWrite)
      hCalls
  exact ⟨hNow.isOf, hNow.configuration⟩

/- A machine that was built has its input on the control tape. -/
theorem control_of_result_ofDescription_eq_ok
    {d : Description}
    {m : Machine}
    (hBuild : (ofDescription d).result = .ok m) :
    m.configuration.control = Tape.ofInput d.input := by
  have hBuilt :
      m.Obeys d (fun _ _ => True)
        (fun c => c.control = Tape.ofInput d.input) := by
    refine obeys_of_result_ofDescription_eq_ok ?_ ?_ hBuild
    · intro r _hRule rule _hMem
      trivial
    · intro tapes
      rfl
  exact hBuilt.configuration

/-
  Where wildcards are used and no written symbol is found to be
  unmatched, a machine never has a symbol on a work tape for
  which no wildcard stands, and on the control tape none but the
  wildcard itself. Wildcards stand for all symbols that it ever
  meets exactly if its input holds no wildcard; of that the
  examination says nothing.
-/
theorem unmatched_only_with_wildcard_in_input
    {d : Description}
    {m : Machine}
    (hWildcard : ∃ r ∈ d.rules, r.HasWildcard)
    (hFindings :
      ∀ symbols, .unmatchedSymbols symbols ∉ d.findings)
    (hBuild : (ofDescription d).result = .ok m) :
    (∀ calls,
      (∀ e, .edit e ∉ calls) →
        let now := m.performAll calls
        (∀ t ∈ now.configuration.work, ∀ c ∈ t.cells,
          c ∈ now.table.alphabet) ∧
          ∀ c ∈ now.configuration.control.cells,
            c ∈ now.table.alphabet ∨ c = Symbol.wildcard) ∧
      ((∀ calls,
        (∀ e, .edit e ∉ calls) →
          let now := m.performAll calls
          ∀ t ∈ now.configuration.tapes, ∀ c ∈ t.cells,
            c ∈ now.table.alphabet) ↔
        Symbol.wildcard ∉ d.input) := by
  have hNow :
      ∀ calls,
        (∀ e, .edit e ∉ calls) →
          (m.performAll calls).IsOf d ∧
            (m.performAll calls).configuration.Matched
              d.input := by
    intro calls hCalls
    exact
      matched_performAll hWildcard hFindings hBuild hCalls
  refine ⟨?_, ?_, ?_⟩
  · intro calls hCalls now
    rcases hNow calls hCalls with ⟨hIsOf, hMatched⟩
    rw [hIsOf.alphabet]
    refine ⟨hMatched.work, ?_⟩
    intro c hMem
    exact (hMatched.control c hMem).imp_right And.left
  · intro hAll hInput
    have hMem :
        Symbol.wildcard ∈ m.configuration.control.cells := by
      rw [control_of_result_ofDescription_eq_ok hBuild]
      exact Tape.mem_cells_ofInput.mpr (Or.inl hInput)
    have hFirst :=
      hAll [] (fun _ => List.not_mem_nil) _
        List.mem_cons_self _ hMem
    exact m.table.alphabet.wildcard_not_mem hFirst
  · intro hInput calls hCalls now t hTape c hMem
    rcases hNow calls hCalls with ⟨hIsOf, hMatched⟩
    rw [hIsOf.alphabet]
    rcases List.mem_cons.mp hTape with rfl | hTape
    · rcases hMatched.control c hMem with
        hSymbol | ⟨_hEq, hBrought⟩
      · exact hSymbol
      · exact absurd hBrought hInput
    · exact hMatched.work t hTape c hMem

/- Wildcards stand for all that the scanning machine meets. -/
theorem scanner_meets_matched_symbols :
    (∃ r ∈ scanner.rules, r.HasWildcard) ∧
      scanner.findings = [] ∧
      ∃ m,
        (ofDescription scanner).result = .ok m ∧
          let now := m.performAll [.run 4]
          now.configuration.tapes.map Tape.cells =
              [['a', 'b', '_']] ∧
            ∀ t ∈ now.configuration.tapes, ∀ c ∈ t.cells,
              c ∈ now.table.alphabet := by
  have hWildcard : ∃ r ∈ scanner.rules, r.HasWildcard := by
    decide
  have hFindings : scanner.findings = [] := by
    decide
  have hNotFound :
      ∀ symbols,
        .unmatchedSymbols symbols ∉ scanner.findings := by
    rw [hFindings]
    exact fun _ => List.not_mem_nil
  have hBuild : (ofDescription scanner).result = .ok _ :=
    rfl
  have hAll :=
    (unmatched_only_with_wildcard_in_input hWildcard
      hNotFound hBuild).2.mpr (by decide)
  refine ⟨hWildcard, hFindings, _, hBuild, by decide, ?_⟩
  exact hAll [.run 4] (by simp)

/- The same machine with a wildcard for an input. -/
def starred : Description :=
  { scanner with input := [Symbol.wildcard] }

/-
  Nothing is found in its description, and yet the only symbol
  on its tape is one for which no wildcard stands.
-/
theorem starred_meets_unmatched_symbol :
    (∃ r ∈ starred.rules, r.HasWildcard) ∧
      (∀ symbols,
        .unmatchedSymbols symbols ∉ starred.findings) ∧
      ∃ m,
        (ofDescription starred).result = .ok m ∧
          ∃ t ∈ m.configuration.tapes, ∃ c ∈ t.cells,
            c ∉ m.table.alphabet := by
  have hFindings : starred.findings = [] := by
    decide
  have hBuild : (ofDescription starred).result = .ok _ :=
    rfl
  refine
    ⟨by decide, ?_, _, hBuild, _, List.mem_cons_self,
      Symbol.wildcard, ?_, ?_⟩
  · rw [hFindings]
    exact fun _ => List.not_mem_nil
  · rw [control_of_result_ofDescription_eq_ok hBuild]
    exact
      Tape.mem_cells_ofInput.mpr (Or.inl List.mem_cons_self)
  · exact Alphabet.wildcard_not_mem _

end Machine

end MultiTape
