import MultiTape.Machine.Build
import MultiTape.Proofs.Machine.Reachability

/-
  This file compares the two ways of building a machine from
  one description. While no key loses another action the two
  builds go the same way, and the strict build ends where the
  other one notes the first key that did.

  Key definitions include:
    * `Machine.Alike`
    * `Build.overwritten`
    * `Build.warnings`
    * `Machine.buildIn`

  Main statements:
    * `Machine.Alike.run`
    * `Table.head?_overwritten_bindAll`
    * `Table.register_setMode_strict`
    * `Machine.result_buildIn_strict`
    * `Machine.strict_build_ends_at_first_warning`
-/

namespace MultiTape

------------------------------------------------------------
-- Machines That Run Alike
------------------------------------------------------------

namespace Machine

/-
  Two machines are in the same configuration and find the same
  actions. They may differ in everything that no run looks at.
-/
structure Alike
    (m m' : Machine) : Prop where
  lookup :
    ∀ state symbols,
      m'.table.lookup state symbols =
        m.table.lookup state symbols
  configuration : m'.configuration = m.configuration
  steps : m'.steps = m.steps
  maxSteps : m'.maxSteps = m.maxSteps
  accept : m'.accept = m.accept

/- What the handling of repeated keys does not change. -/
theorem alike_setMode
    (m : Machine)
    (mode : Mode) :
    m.Alike (m.setMode mode) :=
  ⟨fun _ _ => rfl, rfl, rfl, rfl, rfl⟩

/- A limit is given to both machines. -/
theorem Alike.setMaxSteps
    {m m' : Machine}
    (hAlike : m.Alike m')
    (limit : Option Nat) :
    (m.setMaxSteps limit).Alike (m'.setMaxSteps limit) :=
  ⟨hAlike.lookup, hAlike.configuration, hAlike.steps, rfl,
    hAlike.accept⟩

/- The verdict is the same. -/
theorem Alike.verdict_eq
    {m m' : Machine}
    (hAlike : m.Alike m') :
    m'.verdict = m.verdict := by
  have hAccepting :
      m'.IsAccepting m'.state ↔ m.IsAccepting m.state := by
    unfold IsAccepting state
    rw [hAlike.configuration, hAlike.accept]
  unfold verdict
  simp only [hAccepting]

/-
  Both machines take the same step and are alike after it, or
  neither takes one, for the same reason.
-/
theorem Alike.advance
    {m m' : Machine}
    (hAlike : m.Alike m') :
    (∃ e, m.advance = .error e ∧ m'.advance = .error e) ∨
      ∃ next next' s,
        m.advance = .ok (next, s) ∧
          m'.advance = .ok (next', s) ∧
          next.Alike next' := by
  have hSpent : m'.spent? = m.spent? := by
    unfold spent?
    rw [hAlike.maxSteps, hAlike.steps]
  have hState : m'.state = m.state := by
    unfold state
    rw [hAlike.configuration]
  have hSymbols : m'.symbols = m.symbols := by
    unfold symbols
    rw [hAlike.configuration]
  unfold Machine.advance
  rw [hSpent]
  cases m.spent? with
  | some limit => exact Or.inl ⟨_, rfl, rfl⟩
  | none =>
      unfold step
      rw [hState, hSymbols, hAlike.lookup,
        hAlike.configuration, hAlike.steps]
      cases m.table.lookup m.state m.symbols with
      | none => exact Or.inl ⟨_, rfl, rfl⟩
      | some a =>
          exact
            Or.inr
              ⟨_, _, _, rfl, rfl, hAlike.lookup, rfl, rfl,
                hAlike.maxSteps, hAlike.accept⟩

/- Machines that are alike run alike, for any number of steps. -/
theorem Alike.run
    {m m' : Machine}
    (hAlike : m.Alike m')
    (fuel : Nat) :
    (m'.run fuel).outcome = (m.run fuel).outcome ∧
      (m'.run fuel).trace = (m.run fuel).trace ∧
      (m.run fuel).machine.Alike (m'.run fuel).machine := by
  have hRelated :=
    run_related id id ?_ ?_ ?_ hAlike fuel
  · simpa using hRelated
  · intro m m' hAlike
    rcases hAlike.advance with
      ⟨e, hError, hError'⟩ |
        ⟨next, next', s, hOk, hOk', hNext⟩
    · exact Or.inl ⟨e, e, hError, hError', rfl⟩
    · refine
        Or.inr ⟨next, next', s, s, hOk, hOk', hNext, ?_⟩
      rw [hNext.configuration, id]
  · intro m m' hAlike
    rw [hAlike.configuration]
  · intro m m' hAlike
    rw [hAlike.verdict_eq, id]

end Machine

------------------------------------------------------------
-- Registering In Both Modes
------------------------------------------------------------

namespace Table

/-
  The first conflict among rules is the first key that loses
  another action when they are bound in spite of it. The two
  agree up to that key, since the rules before it are bound
  in the same way.
-/
theorem head?_overwritten_bindAll
    (b : Bindings)
    (rules : List Rule) :
    (bindAll b rules).2.head? = conflict? b rules := by
  induction rules generalizing b with
  | nil => rfl
  | cons r rules ih =>
      unfold bindAll conflict?
      by_cases hLoses : Overwrites r b
      · simp [hLoses]
      · simp [hLoses, ih]

/-
  In strict mode a rule is registered as it would be otherwise,
  unless a key loses another action by it.
-/
theorem register_setMode_strict
    {t : Table}
    (hMode : t.mode = .overwrite)
    (r : Rule) :
    (t.setMode .strict).register r =
      match t.register r with
      | .error e => .error e
      | .ok (next, g) =>
          match g.overwritten.head? with
          | some key => .error (.conflictingRule key)
          | none => .ok (next.setMode .strict, g) := by
  have hMisfit :
      (t.setMode .strict).misfit? r = t.misfit? r := rfl
  have hExpand :
      (t.setMode .strict).expand r = t.expand r := rfl
  unfold register
  rw [hMisfit, hExpand, hMode]
  cases t.misfit? r with
  | some e => rfl
  | none =>
      have hHead :=
        head?_overwritten_bindAll t.bindings (t.expand r)
      cases hConflict :
          conflict? t.bindings (t.expand r) with
      | some key =>
          rw [hConflict] at hHead
          simp [setMode, hConflict, hHead]
      | none =>
          rw [hConflict] at hHead
          simp [setMode, hConflict, hHead]

/- Registering a rule does not change the mode. -/
theorem mode_of_register_eq_ok
    {t next : Table}
    {r : Rule}
    {g : Registration}
    (hOk : t.register r = .ok (next, g)) :
    next.mode = t.mode := by
  rcases register_eq_ok_iff.mp hOk with
    ⟨_hFits, _hConflict, rfl, _hg⟩
  rfl

/- Outside of strict mode only a rule that does not fit is refused. -/
theorem exists_of_register_eq_error
    {t : Table}
    {r : Rule}
    {e : Error}
    (hMode : t.mode = .overwrite)
    (hError : t.register r = .error e) :
    ∃ part found,
      e = .malformedRule r.state part found t.tapes := by
  rcases register_eq_error_iff.mp hError with
    hMisfit | ⟨_hFits, hStrict, _hConflict⟩
  · exact exists_of_misfit?_eq_some hMisfit
  · rw [hMode] at hStrict
    cases hStrict

end Table

------------------------------------------------------------
-- Warnings
------------------------------------------------------------

/- The key of an event, if it is about a key that lost an action. -/
def Event.overwritten? : Event → Option Key
  | overwritten key => some key
  | _ => none

namespace Build

/- The keys that lost another action, in the order of the events. -/
def overwritten
    (b : Build) : List Key :=
  b.events.filterMap Event.overwritten?

/- The events that are warnings, in their order. -/
def warnings
    (b : Build) : List Event :=
  b.events.filter fun e => decide (e.level = .warn)

/- Earlier warnings come first. -/
theorem warnings_after
    (events : List Event)
    (b : Build) :
    (b.after events).warnings =
      (events.filter fun e => decide (e.level = .warn)) ++
        b.warnings :=
  List.filter_append ..

/- Keys that lost an action earlier come first. -/
theorem overwritten_after
    (events : List Event)
    (b : Build) :
    (b.after events).overwritten =
      events.filterMap Event.overwritten? ++ b.overwritten :=
  List.filterMap_append ..

end Build

/- The keys in the events of a registration are those it tells. -/
theorem Table.Registration.filterMap_events
    (g : Table.Registration)
    (r : Rule) :
    (g.events r).filterMap Event.overwritten? =
      g.overwritten := by
  unfold events
  rw [List.filterMap_append, List.filterMap_map]
  have hKeys :
      Event.overwritten? ∘ Event.overwritten = some := rfl
  rw [hKeys, List.filterMap_some]
  exact List.append_nil _

/- The warnings of a registration are those about such keys. -/
theorem Table.Registration.filter_events
    (g : Table.Registration)
    (r : Rule) :
    ((g.events r).filter fun e => decide (e.level = .warn)) =
      g.overwritten.map .overwritten := by
  unfold events
  rw [List.filter_append]
  have hAll :
      ((g.overwritten.map Event.overwritten).filter
          fun e => decide (e.level = .warn)) =
        g.overwritten.map .overwritten := by
    rw [List.filter_eq_self]
    intro e he
    rcases List.mem_map.mp he with ⟨key, _hKey, rfl⟩
    rfl
  rw [hAll]
  exact List.append_nil _

------------------------------------------------------------
-- Building In Both Modes
------------------------------------------------------------

namespace Machine

/- What registering a rule does to a machine. -/
theorem register_of_table_register_eq_ok
    {m : Machine}
    {r : Rule}
    {next : Table}
    {g : Table.Registration}
    (hOk : m.table.register r = .ok (next, g)) :
    m.register r = .ok ({ m with table := next }, g) := by
  unfold register
  rw [hOk]
  rfl

/- A rule is refused for the same reason as by the table. -/
theorem register_of_table_register_eq_error
    {m : Machine}
    {r : Rule}
    {e : Error}
    (hError : m.table.register r = .error e) :
    m.register r = .error e := by
  unfold register
  rw [hError]
  rfl

/- All warnings while rules are added are about lost actions. -/
theorem warnings_registerAll
    (m : Machine)
    (rules : List Rule) :
    (m.registerAll rules).warnings =
      (m.registerAll rules).overwritten.map .overwritten := by
  induction rules generalizing m with
  | nil => rfl
  | cons r rules ih =>
      unfold registerAll
      cases m.register r with
      | error e => rfl
      | ok p =>
          rcases p with ⟨next, g⟩
          simp only
          rw [Build.warnings_after, Build.overwritten_after,
            g.filter_events, g.filterMap_events,
            List.map_append, ih]

/-
  Adding rules in strict mode ends at the first key that loses
  another action when they are added otherwise. The induction
  carries both machines along; they differ in the mode only.
-/
theorem result_registerAll_setMode_strict
    {m : Machine}
    (hMode : m.table.mode = .overwrite)
    (rules : List Rule) :
    ((m.setMode .strict).registerAll rules).result =
      match (m.registerAll rules).overwritten.head? with
      | some key => .error (.conflictingRule key)
      | none =>
          (m.registerAll rules).result.map
            fun last => last.setMode .strict := by
  induction rules generalizing m with
  | nil => rfl
  | cons r rules ih =>
      have hStrict := Table.register_setMode_strict hMode r
      unfold registerAll
      cases hRegister : m.table.register r with
      | error e =>
          rw [hRegister] at hStrict
          rw [register_of_table_register_eq_error hRegister,
            register_of_table_register_eq_error
              (m := m.setMode .strict) hStrict]
          rfl
      | ok p =>
          rcases p with ⟨next, g⟩
          rw [hRegister] at hStrict
          rw [register_of_table_register_eq_ok hRegister]
          simp only
          rw [Build.overwritten_after, g.filterMap_events]
          cases hKeys : g.overwritten with
          | cons key keys =>
              simp only [hKeys, List.head?_cons] at hStrict
              rw [register_of_table_register_eq_error
                (m := m.setMode .strict) hStrict]
              rfl
          | nil =>
              simp only [hKeys, List.head?_nil] at hStrict
              have hNext :
                  next.mode = .overwrite := by
                rw [Table.mode_of_register_eq_ok hRegister,
                  hMode]
              rw [register_of_table_register_eq_ok
                (m := m.setMode .strict) hStrict]
              exact ih (m := { m with table := next }) hNext

/- Outside of strict mode no build ends with a conflict. -/
theorem result_registerAll_ne_conflictingRule
    {m : Machine}
    (hMode : m.table.mode = .overwrite)
    (rules : List Rule)
    (key : Key) :
    (m.registerAll rules).result ≠
      .error (.conflictingRule key) := by
  induction rules generalizing m with
  | nil =>
      intro hConflict
      cases hConflict
  | cons r rules ih =>
      unfold registerAll
      cases hRegister : m.table.register r with
      | error e =>
          rw [register_of_table_register_eq_error hRegister]
          rcases Table.exists_of_register_eq_error hMode
              hRegister with
            ⟨part, found, rfl⟩
          intro hConflict
          cases hConflict
      | ok p =>
          rcases p with ⟨next, g⟩
          rw [register_of_table_register_eq_ok hRegister]
          apply ih
          rw [Table.mode_of_register_eq_ok hRegister, hMode]

/- The build of a description in a mode that it need not have. -/
def buildIn
    (mode : Mode)
    (d : Description) : Build :=
  ofDescription { d with mode := mode }

/-
  The strict build of a description, told from the build that
  lets later rules take the place of earlier ones.
-/
theorem result_buildIn_strict
    (d : Description) :
    (buildIn .strict d).result =
      match (buildIn .overwrite d).overwritten.head? with
      | some key => .error (.conflictingRule key)
      | none =>
          (buildIn .overwrite d).result.map
            fun m => m.setMode .strict := by
  unfold buildIn ofDescription
  cases hCreate :
      create d.name d.tapes d.input d.states d.start
        d.accept with
  | error e => rfl
  | ok m =>
      exact
        result_registerAll_setMode_strict
          (m := m.setMode .overwrite) rfl d.rules

/- All warnings of a build are about keys that lost an action. -/
theorem warnings_buildIn
    (mode : Mode)
    (d : Description) :
    (buildIn mode d).warnings =
      (buildIn mode d).overwritten.map .overwritten := by
  unfold buildIn ofDescription
  cases create d.name d.tapes d.input d.states d.start
      d.accept with
  | error e => rfl
  | ok m => exact warnings_registerAll _ _

/- Outside of strict mode no description leads to a conflict. -/
theorem result_buildIn_overwrite_ne_conflictingRule
    (d : Description)
    (key : Key) :
    (buildIn .overwrite d).result ≠
      .error (.conflictingRule key) := by
  unfold buildIn ofDescription
  cases hCreate :
      create d.name d.tapes d.input d.states d.start
        d.accept with
  | error e =>
      unfold create at hCreate
      split at hCreate
      · cases hCreate
        intro hConflict
        cases hConflict
      · cases hCreate
  | ok m => exact result_registerAll_ne_conflictingRule rfl _ key

/- Without a warning the strict build ends as the other one. -/
theorem result_buildIn_strict_of_warnings_eq_nil
    {d : Description}
    (hNone : (buildIn .overwrite d).warnings = []) :
    (buildIn .strict d).result =
      (buildIn .overwrite d).result.map
        fun m => m.setMode .strict := by
  rw [warnings_buildIn, List.map_eq_nil_iff] at hNone
  rw [result_buildIn_strict, hNone]
  rfl

/- The first warning names the key of the strict build's conflict. -/
theorem exists_of_warnings_eq_cons
    {d : Description}
    {w : Event}
    {more : List Event}
    (hSome : (buildIn .overwrite d).warnings = w :: more) :
    ∃ key,
      w = .overwritten key ∧
        (buildIn .strict d).result =
          .error (.conflictingRule key) := by
  rw [warnings_buildIn] at hSome
  rcases List.map_eq_cons_iff.mp hSome with
    ⟨key, keys, hKeys, hEvent, _hMore⟩
  refine ⟨key, hEvent.symm, ?_⟩
  rw [result_buildIn_strict, hKeys]
  rfl

/-
  The strict build and the other one go together up to the
  first warning. Without a warning both end in the same way,
  and the machines find the same actions and have the same
  runs, whatever the limit. With one, it is about a key that
  lost another action, and the strict build ends with the
  conflict at exactly that key.
-/
theorem strict_build_ends_at_first_warning
    (d : Description) :
    ((buildIn .overwrite d).warnings = [] →
      (∀ e,
        (buildIn .strict d).result = .error e ↔
          (buildIn .overwrite d).result = .error e) ∧
        ∀ m,
          (buildIn .overwrite d).result = .ok m →
            ∃ m',
              (buildIn .strict d).result = .ok m' ∧
                (∀ state symbols,
                  m'.table.lookup state symbols =
                    m.table.lookup state symbols) ∧
                ∀ limit fuel,
                  let r := (m.setMaxSteps limit).run fuel
                  let r' := (m'.setMaxSteps limit).run fuel
                  r'.outcome = r.outcome ∧
                    r'.trace = r.trace ∧
                    r.machine.Alike r'.machine) ∧
      (∀ w more,
        (buildIn .overwrite d).warnings = w :: more →
          ∃ key,
            w = .overwritten key ∧
              (buildIn .strict d).result =
                .error (.conflictingRule key)) ∧
      ((∃ key,
          (buildIn .strict d).result =
            .error (.conflictingRule key)) ↔
        (buildIn .overwrite d).warnings ≠ []) := by
  refine ⟨?_, ?_, ?_⟩
  · intro hNone
    rw [result_buildIn_strict_of_warnings_eq_nil hNone]
    cases hResult : (buildIn .overwrite d).result with
    | error e =>
        refine ⟨fun _ => Iff.rfl, ?_⟩
        intro m hOk
        cases hOk
    | ok m =>
        refine ⟨?_, ?_⟩
        · intro e
          constructor <;> intro hError <;> cases hError
        · intro last hOk
          cases hOk
          refine ⟨_, rfl, fun _ _ => rfl, ?_⟩
          intro limit fuel
          have hAlike :=
            (alike_setMode m .strict).setMaxSteps limit
          exact hAlike.run fuel
  · intro w more hSome
    exact exists_of_warnings_eq_cons hSome
  · constructor
    · intro hParts hNone
      rcases hParts with ⟨key, hConflict⟩
      rw [result_buildIn_strict_of_warnings_eq_nil hNone]
        at hConflict
      cases hResult : (buildIn .overwrite d).result with
      | error e =>
          rw [hResult] at hConflict
          cases hConflict
          exact
            result_buildIn_overwrite_ne_conflictingRule d key
              hResult
      | ok m =>
          rw [hResult] at hConflict
          cases hConflict
    · intro hSome
      rcases List.exists_cons_of_ne_nil hSome with
        ⟨w, more, hWarnings⟩
      rcases exists_of_warnings_eq_cons hWarnings with
        ⟨key, _hEvent, hConflict⟩
      exact ⟨key, hConflict⟩

/-
  A rule that writes a wildcard and reads none, and a rule that
  has no entry for the only tape. The first collides with
  itself before the second is looked at.
-/
def colliding : Description :=
  { name := "collide"
    tapes := 1
    input := ['a']
    states := ["p", "q"]
    start := "p"
    accept := ["q"]
    mode := .overwrite
    rules :=
      [{ state := "p"
         read := ['a']
         nextState := "q"
         write := [Symbol.wildcard]
         moves := [.right] },
       { state := "q"
         read := []
         nextState := "q"
         write := []
         moves := [] }] }

/- The one build warns and ends at the second rule, the other at the first. -/
theorem strict_build_of_colliding :
    (buildIn .overwrite colliding).warnings =
        [.overwritten ⟨"p", ['a']⟩] ∧
      (buildIn .overwrite colliding).result =
        .error (.malformedRule "q" .read 0 1) ∧
      (buildIn .strict colliding).result =
        .error (.conflictingRule ⟨"p", ['a']⟩) := by
  have hWarnings :
      (buildIn .overwrite colliding).warnings =
        [.overwritten ⟨"p", ['a']⟩] := by
    decide
  rcases
      (strict_build_ends_at_first_warning colliding).2.1
        _ _ hWarnings with
    ⟨key, hEvent, hConflict⟩
  cases hEvent
  exact ⟨hWarnings, rfl, hConflict⟩

end Machine

end MultiTape
