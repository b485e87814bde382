import MultiTape.Proofs.Table.RuleLists

/-
  This file gives states other names and lists with an entry for
  every tape another order, and follows such a recoding through
  the table of a machine. Rules are only ever compared with each
  other, and a wildcard is looked for wherever it stands, so two
  tables that begin as recodings of each other accept and refuse
  recoded rules alike, and stay so.

  Key definitions include:
    * `Recoding`
    * `Recoding.key`
    * `Recoding.action`
    * `Recoding.rule`
    * `Recoding.error`
    * `Recoding.Binds`
    * `Recoding.Relates`

  Main statements:
    * `Recoding.order_zip`
    * `Recoding.order_injective`
    * `Recoding.Binds.conflict?_eq`
    * `Recoding.Binds.bindAll`
    * `Recoding.Relates.register`
    * `Recoding.Relates.registerAll`
-/

namespace MultiTape

------------------------------------------------------------
-- Recodings
------------------------------------------------------------

/-
  Other names for states, no two of which become one, and
  another order for lists. The order depends on no entry, keeps
  all of them and leaves the first in its place, which is that
  of the control tape.
-/
structure Recoding where
  state : State → State
  order : {α : Type} → List α → List α
  state_injective : Function.Injective state
  order_map :
    ∀ {α β : Type} (f : α → β) (items : List α),
      order (items.map f) = (order items).map f
  order_perm :
    ∀ {α : Type} (items : List α), (order items).Perm items
  order_cons :
    ∀ {α : Type} (a : α) (items : List α),
      ∃ others, order (a :: items) = a :: others

namespace Recoding

variable {α β : Type}
variable (ρ : Recoding)

/- The order keeps the number of entries. -/
@[simp]
theorem length_order
    (items : List α) :
    (ρ.order items).length = items.length :=
  (ρ.order_perm items).length_eq

/- The order keeps the entries. -/
@[simp]
theorem mem_order
    {a : α}
    {items : List α} :
    a ∈ ρ.order items ↔ a ∈ items :=
  (ρ.order_perm items).mem_iff

/- Lists of one length are put in order side by side. -/
theorem order_zip
    {as : List α}
    {bs : List β}
    (hLength : as.length = bs.length) :
    ρ.order (as.zip bs) = (ρ.order as).zip (ρ.order bs) := by
  have hFst : (as.zip bs).map Prod.fst = as :=
    List.map_fst_zip (Nat.le_of_eq hLength)
  have hSnd : (as.zip bs).map Prod.snd = bs :=
    List.map_snd_zip (Nat.le_of_eq hLength.symm)
  calc
    ρ.order (as.zip bs)
      = ((ρ.order (as.zip bs)).map Prod.fst).zip
          ((ρ.order (as.zip bs)).map Prod.snd) := by
        rw [List.zip_map']
        exact (List.map_id _).symm
    _ = (ρ.order ((as.zip bs).map Prod.fst)).zip
          (ρ.order ((as.zip bs).map Prod.snd)) := by
        rw [ρ.order_map, ρ.order_map]
    _ = (ρ.order as).zip (ρ.order bs) := by
        rw [hFst, hSnd]

/-
  No two lists become one by the order. Side by side such lists
  would have the same entry in every place.
-/
theorem order_injective :
    Function.Injective (ρ.order (α := α)) := by
  intro as bs hEq
  have hLength : as.length = bs.length := by
    rw [← ρ.length_order as, hEq, ρ.length_order]
  have hSame : ∀ p ∈ as.zip bs, p.1 = p.2 := by
    intro p hMem
    rw [← ρ.mem_order, ρ.order_zip hLength, hEq,
      List.zip_eq_zipWith, List.zipWith_self] at hMem
    rcases List.mem_map.mp hMem with ⟨b, _hMem, rfl⟩
    rfl
  calc
    as = (as.zip bs).map Prod.fst :=
        (List.map_fst_zip (Nat.le_of_eq hLength)).symm
    _ = (as.zip bs).map Prod.snd :=
        List.map_congr_left hSame
    _ = bs := List.map_snd_zip (Nat.le_of_eq hLength.symm)

------------------------------------------------------------
-- Rules
------------------------------------------------------------

/- A key in other names and another order. -/
def key
    (k : Key) : Key :=
  ⟨ρ.state k.state, ρ.order k.read⟩

/- An action in other names and another order. -/
def action
    (a : Action) : Action :=
  ⟨ρ.state a.nextState, ρ.order a.write, ρ.order a.moves⟩

/- A rule in other names and another order. -/
def rule
    (r : Rule) : Rule where
  state := ρ.state r.state
  read := ρ.order r.read
  nextState := ρ.state r.nextState
  write := ρ.order r.write
  moves := ρ.order r.moves

/-
  An error in other names and another order. Those that do not
  come from a machine stay as they are.
-/
def error : Error → Error
  | .noTransition k => .noTransition (ρ.key k)
  | .malformedRule state part found expected =>
      .malformedRule (ρ.state state) part found expected
  | .conflictingRule k => .conflictingRule (ρ.key k)
  | e => e

/- What came of a recoded rule: the lost keys are recoded as well. -/
def registration
    (g : Table.Registration) : Table.Registration :=
  ⟨g.count, g.overwritten.map ρ.key⟩

/- No two keys become one. -/
theorem key_injective :
    Function.Injective ρ.key := by
  intro k l hEq
  rcases Key.mk.inj hEq with ⟨hState, hRead⟩
  cases k
  cases l
  congr
  · exact ρ.state_injective hState
  · exact ρ.order_injective hRead

/- No two actions become one. -/
theorem action_injective :
    Function.Injective ρ.action := by
  intro a b hEq
  rcases Action.mk.inj hEq with ⟨hState, hWrite, hMoves⟩
  cases a
  cases b
  congr
  · exact ρ.state_injective hState
  · exact ρ.order_injective hWrite
  · exact ρ.order_injective hMoves

@[simp]
theorem key_rule
    (r : Rule) :
    (ρ.rule r).key = ρ.key r.key :=
  rfl

@[simp]
theorem action_rule
    (r : Rule) :
    (ρ.rule r).action = ρ.action r.action :=
  rfl

/- A rule keeps its wildcards. -/
theorem hasWildcard_rule
    {r : Rule} :
    (ρ.rule r).HasWildcard ↔ r.HasWildcard := by
  simp [Rule.HasWildcard, rule]

/- A rule keeps the number of its entries. -/
theorem fits_rule
    {tapes : Nat}
    {r : Rule} :
    (ρ.rule r).Fits tapes ↔ r.Fits tapes := by
  constructor
  · rintro ⟨hRead, hWrite, hMoves⟩
    simp only [rule, length_order] at hRead hWrite hMoves
    exact ⟨hRead, hWrite, hMoves⟩
  · rintro ⟨hRead, hWrite, hMoves⟩
    constructor <;> simpa only [rule, length_order]

/- A symbol is put in the place of wildcards wherever they are. -/
theorem substitute_rule
    (r : Rule)
    (c : Symbol) :
    (ρ.rule r).substitute c = ρ.rule (r.substitute c) := by
  simp only [Rule.substitute, Rule.fill, rule, ρ.order_map]

------------------------------------------------------------
-- Bindings
------------------------------------------------------------

/-
  The bindings give to every key, once recoded, the action that
  the others give to it, likewise recoded.
-/
def Binds
    (b b' : Bindings) : Prop :=
  ∀ k, b'.find? (ρ.key k) = (b.find? k).map ρ.action

namespace Binds

variable {ρ}
variable {b b' : Bindings}

/- Binding a key on both sides. -/
theorem insert
    (hBinds : ρ.Binds b b')
    (k : Key)
    (a : Action) :
    ρ.Binds (b.insert k a)
      (b'.insert (ρ.key k) (ρ.action a)) := by
  intro l
  rw [Bindings.find?_insert, Bindings.find?_insert, hBinds]
  by_cases hKey : k = l
  · simp [hKey]
  · have hNe : ρ.key k ≠ ρ.key l :=
      fun hEq => hKey (ρ.key_injective hEq)
    simp [hKey, hNe]

/- A key loses another action on both sides or on none. -/
theorem overwrites_iff
    (hBinds : ρ.Binds b b')
    (r : Rule) :
    Table.Overwrites (ρ.rule r) b' ↔ Table.Overwrites r b := by
  unfold Table.Overwrites
  rw [key_rule, action_rule, hBinds]
  cases b.find? r.key with
  | none => simp
  | some a => simp [ρ.action_injective.eq_iff]

/- The first conflict is at the same rule. -/
theorem conflict?_eq
    (hBinds : ρ.Binds b b')
    (rules : List Rule) :
    Table.conflict? b' (rules.map ρ.rule) =
      (Table.conflict? b rules).map ρ.key := by
  induction rules generalizing b b' with
  | nil => rfl
  | cons r rules ih =>
      have hRest := ih (hBinds.insert r.key r.action)
      rw [List.map_cons, Table.conflict?, Table.conflict?]
      simp only [hBinds.overwrites_iff, key_rule, action_rule]
      split
      · rfl
      · exact hRest

/- Rules are bound one after the other, with the same losses. -/
theorem bindAll
    (hBinds : ρ.Binds b b')
    (rules : List Rule) :
    ρ.Binds (Table.bindAll b rules).1
        (Table.bindAll b' (rules.map ρ.rule)).1 ∧
      (Table.bindAll b' (rules.map ρ.rule)).2 =
        (Table.bindAll b rules).2.map ρ.key := by
  induction rules generalizing b b' with
  | nil => exact ⟨hBinds, rfl⟩
  | cons r rules ih =>
      rcases ih (hBinds.insert r.key r.action) with
        ⟨hRest, hLost⟩
      refine ⟨hRest, ?_⟩
      rw [List.map_cons, Table.bindAll, Table.bindAll]
      simp only [hBinds.overwrites_iff, key_rule, action_rule,
        hLost]
      split <;> rfl

end Binds

------------------------------------------------------------
-- Tables
------------------------------------------------------------

/-
  The second table holds the recoding of what the first, which
  fits, holds. All else is the same.
-/
structure Relates
    (t t' : Table) : Prop where
  fits : t.Fits
  tapes : t'.tapes = t.tapes
  mode : t'.mode = t.mode
  alphabet : t'.alphabet = t.alphabet
  binds : ρ.Binds t.bindings t'.bindings

/- A table without actions is related to itself. -/
theorem relates_ofSymbols
    (tapes : Nat)
    (symbols : List Symbol)
    (mode : Mode) :
    ρ.Relates ((Table.ofSymbols tapes symbols).setMode mode)
      ((Table.ofSymbols tapes symbols).setMode mode) where
  fits := Table.fits_ofSymbols tapes symbols
  tapes := rfl
  mode := rfl
  alphabet := rfl
  binds _ := rfl

namespace Relates

variable {ρ}
variable {t t' : Table}

/- Both tables give the same answers. -/
theorem lookup_eq
    (hRelates : ρ.Relates t t')
    (state : State)
    (symbols : List Symbol) :
    t'.lookup (ρ.state state) (ρ.order symbols) =
      (t.lookup state symbols).map ρ.action :=
  hRelates.binds ⟨state, symbols⟩

/- The same part of a rule does not fit. -/
theorem misfit?_eq
    (hRelates : ρ.Relates t t')
    (r : Rule) :
    t'.misfit? (ρ.rule r) = (t.misfit? r).map ρ.error := by
  simp only [Table.misfit?, rule, length_order, hRelates.tapes,
    apply_ite (Option.map ρ.error), Option.map_some,
    Option.map_none, error]

/- A recoded rule stands for the recoded rules. -/
theorem expand_eq
    (hRelates : ρ.Relates t t')
    (r : Rule) :
    t'.expand (ρ.rule r) = (t.expand r).map ρ.rule := by
  unfold Table.expand
  simp only [ρ.hasWildcard_rule, hRelates.alphabet]
  split
  · rw [List.map_map]
    exact List.map_congr_left fun c _ => ρ.substitute_rule r c
  · rfl

/-
  Both tables refuse a rule, for the same reason, or both accept
  it and stay related.
-/
theorem register
    (hRelates : ρ.Relates t t')
    (r : Rule) :
    (∃ e,
        t.register r = .error e ∧
          t'.register (ρ.rule r) = .error (ρ.error e)) ∨
      ∃ next next' g,
        t.register r = .ok (next, g) ∧
          t'.register (ρ.rule r) =
            .ok (next', ρ.registration g) ∧
          ρ.Relates next next' := by
  cases hRegister : t.register r with
  | error e =>
      refine Or.inl ⟨e, rfl, ?_⟩
      rw [Table.register_eq_error_iff] at hRegister ⊢
      rw [hRelates.misfit?_eq, ρ.fits_rule, hRelates.tapes,
        hRelates.mode, hRelates.expand_eq,
        hRelates.binds.conflict?_eq]
      rcases hRegister with
        hMisfit | ⟨hFits, hMode, key, hConflict, rfl⟩
      · exact Or.inl (by rw [hMisfit]; rfl)
      · refine Or.inr ⟨hFits, hMode, ρ.key key, ?_, rfl⟩
        rw [hConflict]
        rfl
  | ok p =>
      have hNext := hRelates.fits.edit (.register r)
      rw [Table.edit_of_register_eq_ok hRegister] at hNext
      rcases Table.register_eq_ok_iff.mp hRegister with
        ⟨hFits, hConflict, hTable, hCount⟩
      rcases hRelates.binds.bindAll (t.expand r) with
        ⟨hBinds, hLost⟩
      refine
        Or.inr
          ⟨p.1, _, p.2, rfl,
            Table.register_eq_ok_iff.mpr
              ⟨?_, ?_, rfl, ?_⟩, ?_⟩
      · rw [ρ.fits_rule, hRelates.tapes]
        exact hFits
      · rw [hRelates.mode, hRelates.expand_eq,
          hRelates.binds.conflict?_eq]
        exact fun hMode => by rw [hConflict hMode]; rfl
      · rw [hRelates.expand_eq, hLost, List.length_map, hCount]
        rfl
      · rw [hTable] at hNext ⊢
        refine
          ⟨hNext, hRelates.tapes, hRelates.mode,
            hRelates.alphabet, ?_⟩
        rw [hRelates.expand_eq]
        exact hBinds

/-
  Both tables refuse the rule at the same place of a list, for
  the same reason, or both accept all rules, and stay related.
-/
theorem registerAll
    (hRelates : ρ.Relates t t')
    (rules : List Rule) :
    (∃ i e,
        t.RefusesAt rules i e ∧
          t'.RefusesAt (rules.map ρ.rule) i (ρ.error e)) ∨
      ∃ last last' counts,
        t.registerAll rules = .ok (last, counts) ∧
          t'.registerAll (rules.map ρ.rule) =
            .ok (last', counts) ∧
          ρ.Relates last last' := by
  induction rules generalizing t t' with
  | nil => exact Or.inr ⟨t, t', [], rfl, rfl, hRelates⟩
  | cons r rules ih =>
      rcases hRelates.register r with
        ⟨e, hError, hError'⟩ |
          ⟨next, next', g, hOk, hOk', hNext⟩
      · exact
          Or.inl
            ⟨0, e, Table.refusesAt_zero hError,
              Table.refusesAt_zero hError'⟩
      · rcases ih hNext with
          ⟨i, e, hRefuses, hRefuses'⟩ |
            ⟨last, last', counts, hRest, hRest', hLast⟩
        · exact
            Or.inl
              ⟨i + 1, e, hRefuses.cons hOk,
                hRefuses'.cons hOk'⟩
        · refine
            Or.inr
              ⟨last, last', g.count :: counts, ?_, ?_, hLast⟩
          · exact
              Table.registerAll_cons_eq_ok_iff.mpr
                ⟨next, g, counts, hOk, hRest, rfl⟩
          · exact
              Table.registerAll_cons_eq_ok_iff.mpr
                ⟨next', _, counts, hOk', hRest', rfl⟩

end Relates

end Recoding

end MultiTape
