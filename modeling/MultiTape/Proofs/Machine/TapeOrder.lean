import Mathlib.Data.List.FinRange
import MultiTape.Proofs.Machine.Recoding

/-
  This file shows that work tapes are interchangeable. If the
  entries of all rules are rearranged in the same way, with
  those of the control tape left in their place, the machine
  takes the same steps on tapes that are rearranged.

  Key definitions include:
    * `rearrange`
    * `Recoding.ofTapes`
    * `Description.rearrange`

  Main statements:
    * `getElem?_rearrange`
    * `rearrange_perm`
    * `Description.work_tapes_are_interchangeable`
-/

namespace MultiTape

------------------------------------------------------------
-- Rearranged Lists
------------------------------------------------------------

variable {α β : Type}
variable {k : Nat}

/-
  A list with one entry for every tape, in another order. A list
  of another length is left as it is.
-/
def rearrange
    (π : Equiv.Perm (Fin k))
    (items : List α) : List α :=
  if h : items.length = k then
    List.ofFn fun i => items.get (Fin.cast h.symm (π i))
  else
    items

/- In every place is what was in the place that it is sent to. -/
theorem getElem?_rearrange
    (π : Equiv.Perm (Fin k))
    {items : List α}
    (hLength : items.length = k)
    (i : Fin k) :
    (rearrange π items)[i.val]? = items[(π i).val]? := by
  unfold rearrange
  rw [dif_pos hLength, List.getElem?_ofFn]
  simp [hLength]

/- The order does not depend on the entries. -/
theorem rearrange_map
    (π : Equiv.Perm (Fin k))
    (f : α → β)
    (items : List α) :
    rearrange π (items.map f) = (rearrange π items).map f := by
  unfold rearrange
  by_cases hLength : items.length = k
  · rw [dif_pos hLength,
      dif_pos ((List.length_map f).trans hLength),
      List.map_ofFn]
    simp [Function.comp_def]
  · rw [dif_neg hLength, dif_neg]
    rwa [List.length_map]

/- All entries are kept. -/
theorem rearrange_perm
    (π : Equiv.Perm (Fin k))
    (items : List α) :
    (rearrange π items).Perm items := by
  unfold rearrange
  by_cases hLength : items.length = k
  · subst hLength
    rw [dif_pos rfl]
    have hPerm := π.ofFn_comp_perm items.get
    rwa [List.ofFn_get] at hPerm
  · rw [dif_neg hLength]

/- The first entry is left in its place if the first place is. -/
theorem rearrange_cons
    {π : Equiv.Perm (Fin k)}
    (hControl : ∀ i, i.val = 0 → π i = i)
    (a : α)
    (items : List α) :
    ∃ others, rearrange π (a :: items) = a :: others := by
  unfold rearrange
  by_cases hLength : (a :: items).length = k
  · subst hLength
    rw [dif_pos rfl, List.ofFn_succ, hControl 0 rfl]
    exact ⟨_, rfl⟩
  · rw [dif_neg hLength]
    exact ⟨items, rfl⟩

/-
  Rearranging the tapes, with the control tape left in its
  place, is a recoding that keeps all states.
-/
def Recoding.ofTapes
    (π : Equiv.Perm (Fin k))
    (hControl : ∀ i, i.val = 0 → π i = i) : Recoding where
  state := id
  order := rearrange π
  state_injective := Function.injective_id
  order_map := rearrange_map π
  order_perm := rearrange_perm π
  order_cons := rearrange_cons hControl

------------------------------------------------------------
-- Rearranged Descriptions
------------------------------------------------------------

namespace Description

/- A description with the entries of all rules rearranged. -/
def rearrange
    (d : Description)
    (π : Equiv.Perm (Fin k)) : Description :=
  { d with
    rules :=
      d.rules.map fun r =>
        { r with
          read := MultiTape.rearrange π r.read
          write := MultiTape.rearrange π r.write
          moves := MultiTape.rearrange π r.moves } }

/- Rearranging a description is recoding it. -/
theorem description_ofTapes
    (d : Description)
    (π : Equiv.Perm (Fin k))
    (hControl : ∀ i, i.val = 0 → π i = i) :
    (Recoding.ofTapes π hControl).description d =
      d.rearrange π := by
  unfold Recoding.description rearrange
  simp only [Recoding.ofTapes, List.map_id_fun, id]
  rfl

/-
  The work tapes of a machine are interchangeable. If the
  entries of all rules are rearranged, with those of the control
  tape in their place, then both descriptions cannot be built,
  for the same reason at the same rule, or both machines take
  the same steps. Whatever the limit and however many steps are
  tried, the traces and the ends of their runs are the same with
  the symbols rearranged, and the tapes are rearranged after
  every step.
-/
theorem work_tapes_are_interchangeable
    (d : Description)
    (π : Equiv.Perm (Fin d.tapes))
    (hControl : ∀ i, i.val = 0 → π i = i) :
    let ρ := Recoding.ofTapes π hControl
    let d' := d.rearrange π
    (∃ place e,
        d.FailsAt place e ∧
          d'.FailsAt place (ρ.error e) ∧
          (Machine.ofDescription d).result = .error e ∧
          (Machine.ofDescription d').result =
            .error (ρ.error e)) ∨
      ∃ m m',
        (Machine.ofDescription d).result = .ok m ∧
          (Machine.ofDescription d').result = .ok m' ∧
          (∀ n,
            (m'.after? n).map
                (fun c => (c.state, c.configuration.tapes)) =
              (m.after? n).map fun c =>
                (c.state,
                  MultiTape.rearrange π
                    c.configuration.tapes)) ∧
          ∀ limit fuel,
            let r := (m.setMaxSteps limit).run fuel
            let r' := (m'.setMaxSteps limit).run fuel
            r'.trace = r.trace.map ρ.entry ∧
              r'.outcome = r.outcome.map ρ.ending ∧
              r'.machine.configuration =
                ρ.configuration r.machine.configuration ∧
              r'.machine.steps = r.machine.steps := by
  intro ρ d'
  have hRecoded : ρ.description d = d' :=
    description_ofTapes d π hControl
  rcases ρ.ofDescription_description d with
    ⟨place, e, hFails, hFails'⟩ |
      ⟨m, m', hOk, hOk', hMatches⟩
  · rw [hRecoded] at hFails'
    exact
      Or.inl
        ⟨place, e, hFails, hFails', hFails.result_eq,
          hFails'.result_eq⟩
  · rw [hRecoded] at hOk'
    refine Or.inr ⟨m, m', hOk, hOk', ?_, ?_⟩
    · intro n
      have hAfter :=
        congrArg
          (Option.map fun c => (c.state, c.tapes))
          (hMatches.configuration_after? n)
      simp only [Option.map_map, Function.comp_def,
        Recoding.tapes_configuration] at hAfter
      exact hAfter
    · intro limit fuel
      rcases (hMatches.setMaxSteps limit).run fuel with
        ⟨hOutcome, hTrace, hLast⟩
      exact
        ⟨hTrace, hOutcome, hLast.configuration, hLast.steps⟩

/-
  A machine that writes its input backwards on one work tape and
  a mark for every step on the other.
-/
def weaver : Description :=
  { name := "weave"
    tapes := 3
    input := ['a', 'b']
    states := ["weaving"]
    start := "weaving"
    accept := ["weaving"]
    mode := .strict
    rules :=
      [{ state := "weaving"
         read := [Symbol.wildcard, Symbol.blank, Symbol.blank]
         nextState := "weaving"
         write := [Symbol.wildcard, Symbol.wildcard, 'b']
         moves := [.right, .left, .right] }] }

/- The exchange of the two work tapes. -/
def crossing : Equiv.Perm (Fin 3) :=
  Equiv.swap 1 2

/-
  With the work tapes exchanged the machine accepts within the
  same limit, and has written on each tape what the other
  machine has written on the other one.
-/
theorem interchanged_tapes_of_weaver :
    (∀ i, i.val = 0 → crossing i = i) ∧
      ∃ m m',
        (Machine.ofDescription weaver).result = .ok m ∧
          (Machine.ofDescription
              (weaver.rearrange crossing)).result = .ok m' ∧
          let r := (m.setMaxSteps (some 3)).run 9
          let r' := (m'.setMaxSteps (some 3)).run 9
          r.machine.configuration.tapes.map Tape.cells =
              [['a', 'b', '_', '_'], ['_', '_', 'b', 'a'],
                ['b', 'b', 'b', '_']] ∧
            r'.machine.configuration.tapes.map Tape.cells =
              [['a', 'b', '_', '_'], ['b', 'b', 'b', '_'],
                ['_', '_', 'b', 'a']] ∧
            r'.outcome = some (.ok .accept) := by
  have hControl : ∀ i, i.val = 0 → crossing i = i := by
    decide
  have hRun :
      ((Machine.ofDescription weaver).result.map fun m =>
          let r := (m.setMaxSteps (some 3)).run 9
          (r.machine.configuration.tapes.map Tape.cells,
            r.outcome)) =
        .ok
          ([['a', 'b', '_', '_'], ['_', '_', 'b', 'a'],
              ['b', 'b', 'b', '_']],
            some (.ok .accept)) := by
    decide
  refine ⟨hControl, ?_⟩
  rcases work_tapes_are_interchangeable weaver crossing
      hControl with
    ⟨place, e, _hFails, _hFails', hError, _hError'⟩ |
      ⟨m, m', hOk, hOk', _hAfter, hRuns⟩
  · rw [hError] at hRun
    cases hRun
  · rw [hOk] at hRun
    rcases Prod.mk.inj (Except.ok.inj hRun) with
      ⟨hCells, hOutcome⟩
    rcases hRuns (some 3) 9 with
      ⟨_hTrace, hOutcome', hLast, _hSteps⟩
    refine ⟨m, m', hOk, hOk', hCells, ?_, ?_⟩
    · rw [hLast, Recoding.tapes_configuration,
        ← Recoding.order_map, hCells]
      rfl
    · rw [hOutcome', hOutcome]
      rfl

end Description

end MultiTape
