import MultiTape.Table.Basic

/-
  This file says what registering a rule does to a table, and
  what follows for a table that was edited any number of times:
  what holds of all rules that went into it holds of all of its
  actions. So every action that it holds has one symbol and one
  movement for every tape.

  Key definitions include:
    * `Rule.Fits`
    * `Table.lastAction?`
    * `Table.Edit`
    * `Table.edit`
    * `Table.editAll`
    * `Table.Holds`
    * `Table.Fits`

  Main statements:
    * `Table.mem_expand_cases`
    * `Table.register_eq_ok_iff`
    * `Table.register_eq_error_iff`
    * `Table.lookup_of_register_eq_ok`
    * `Table.Holds.edit`
    * `Table.Fits.edit`
-/

namespace MultiTape

------------------------------------------------------------
-- Rules That Fit
------------------------------------------------------------

/- A rule has one entry for every tape in all of its parts. -/
structure Rule.Fits
    (tapes : Nat)
    (r : Rule) : Prop where
  read : r.read.length = tapes
  write : r.write.length = tapes
  moves : r.moves.length = tapes

/- Substitution keeps the number of entries. -/
theorem Rule.Fits.substitute
    {tapes : Nat}
    {r : Rule}
    (hFits : r.Fits tapes)
    (c : Symbol) :
    (r.substitute c).Fits tapes := by
  constructor
  · exact (Rule.length_fill c r.read).trans hFits.read
  · exact (Rule.length_fill c r.write).trans hFits.write
  · exact hFits.moves

namespace Table

/- A rule passes the check of its parts exactly when it fits. -/
theorem misfit?_eq_none_iff
    {t : Table}
    {r : Rule} :
    t.misfit? r = none ↔ r.Fits t.tapes := by
  unfold misfit?
  constructor
  · intro hNone
    split at hNone
    · cases hNone
    · next hRead =>
        split at hNone
        · cases hNone
        · next hWrite =>
            split at hNone
            · cases hNone
            · next hMoves =>
                exact
                  ⟨Decidable.not_not.mp hRead,
                    Decidable.not_not.mp hWrite,
                    Decidable.not_not.mp hMoves⟩
  · intro hFits
    simp [hFits.read, hFits.write, hFits.moves]

/- A part that does not fit is reported as such. -/
theorem exists_of_misfit?_eq_some
    {t : Table}
    {r : Rule}
    {e : Error}
    (hMisfit : t.misfit? r = some e) :
    ∃ part found,
      e = .malformedRule r.state part found t.tapes := by
  unfold misfit? at hMisfit
  split at hMisfit
  · exact ⟨_, _, (Option.some.inj hMisfit).symm⟩
  · split at hMisfit
    · exact ⟨_, _, (Option.some.inj hMisfit).symm⟩
    · split at hMisfit
      · exact ⟨_, _, (Option.some.inj hMisfit).symm⟩
      · cases hMisfit

/-
  A rule without wildcards stands for itself, and another one
  for what the symbols of the alphabet make of it.
-/
theorem mem_expand_cases
    {t : Table}
    {r rule : Rule}
    (hMem : rule ∈ t.expand r) :
    (¬ r.HasWildcard ∧ rule = r) ∨
      ∃ c ∈ t.alphabet, rule = r.substitute c := by
  unfold expand at hMem
  split at hMem
  · rcases List.mem_map.mp hMem with ⟨c, hSymbol, rfl⟩
    exact Or.inr ⟨c, hSymbol, rfl⟩
  · next hPlain =>
      exact Or.inl ⟨hPlain, List.mem_singleton.mp hMem⟩

/- The rules that a rule stands for fit if it does. -/
theorem fits_of_mem_expand
    {t : Table}
    {r rule : Rule}
    (hFits : r.Fits t.tapes)
    (hMem : rule ∈ t.expand r) :
    rule.Fits t.tapes := by
  rcases mem_expand_cases hMem with
    ⟨_hPlain, rfl⟩ | ⟨c, _hSymbol, rfl⟩
  · exact hFits
  · exact hFits.substitute c

------------------------------------------------------------
-- Binding Rules In Order
------------------------------------------------------------

/- The action of the last rule that answers to a key. -/
def lastAction?
    (k : Key)
    (rules : List Rule) : Option Action :=
  rules.reverse.findSome? fun r =>
    if r.key = k then some r.action else none

/- An action comes from a rule that answers to the key. -/
theorem exists_of_lastAction?_eq_some
    {k : Key}
    {rules : List Rule}
    {a : Action}
    (hSome : lastAction? k rules = some a) :
    ∃ r ∈ rules, r.key = k ∧ r.action = a := by
  rcases List.exists_of_findSome?_eq_some hSome with
    ⟨r, hMem, hAction⟩
  split at hAction
  · next hKey =>
      exact
        ⟨r, List.mem_reverse.mp hMem, hKey,
          Option.some.inj hAction⟩
  · cases hAction

/- A rule in front answers only if no later one does. -/
theorem lastAction?_cons
    (k : Key)
    (r : Rule)
    (rules : List Rule) :
    lastAction? k (r :: rules) =
      (lastAction? k rules).or
        (if r.key = k then some r.action else none) := by
  unfold lastAction?
  rw [List.reverse_cons, List.findSome?_append]
  simp

/-
  After binding rules in order, a key has the action of the
  last rule that answers to it, or the one that it had.
-/
theorem find?_bindAll
    (b : Bindings)
    (rules : List Rule)
    (k : Key) :
    (bindAll b rules).1.find? k =
      (lastAction? k rules).or (b.find? k) := by
  induction rules generalizing b with
  | nil => rfl
  | cons r rules ih =>
      have hBind :
          (bindAll b (r :: rules)).1 =
            (bindAll (b.insert r.key r.action) rules).1 :=
        rfl
      rw [hBind, ih, lastAction?_cons,
        Bindings.find?_insert, Option.or_assoc]
      congr 1
      split <;> rfl

------------------------------------------------------------
-- Registration
------------------------------------------------------------

/-
  A rule is registered exactly when it fits and, in strict
  mode, gives no key another action. Only the bindings of the
  table change.
-/
theorem register_eq_ok_iff
    {t next : Table}
    {r : Rule}
    {g : Registration} :
    t.register r = .ok (next, g) ↔
      r.Fits t.tapes ∧
        (t.mode = .strict →
          conflict? t.bindings (t.expand r) = none) ∧
        next =
          { t with
            bindings :=
              (bindAll t.bindings (t.expand r)).1 } ∧
        g =
          ⟨(t.expand r).length,
            (bindAll t.bindings (t.expand r)).2⟩ := by
  unfold register
  rw [← misfit?_eq_none_iff]
  cases hMisfit : t.misfit? r with
  | some e => simp
  | none =>
      by_cases hMode : t.mode = .strict
      · cases hConflict :
            conflict? t.bindings (t.expand r) with
        | some key => simp [hMode, hConflict]
        | none =>
            simp [hMode, hConflict, @eq_comm _ next,
              @eq_comm _ g]
      · simp [hMode, @eq_comm _ next, @eq_comm _ g]

/-
  A rule is refused because it does not fit or, in strict mode,
  for a conflict.
-/
theorem register_eq_error_iff
    {t : Table}
    {r : Rule}
    {e : Error} :
    t.register r = .error e ↔
      t.misfit? r = some e ∨
        r.Fits t.tapes ∧
          t.mode = .strict ∧
          ∃ key,
            conflict? t.bindings (t.expand r) = some key ∧
              e = .conflictingRule key := by
  unfold register
  rw [← misfit?_eq_none_iff]
  cases t.misfit? r with
  | some first => simp
  | none =>
      by_cases hMode : t.mode = .strict
      · cases hConflict :
            conflict? t.bindings (t.expand r) with
        | some key => simp [hMode, hConflict, @eq_comm _ e]
        | none => simp [hMode, hConflict]
      · simp [hMode]

/- When a rule is accepted. -/
theorem exists_register_eq_ok_iff
    {t : Table}
    {r : Rule} :
    (∃ p, t.register r = .ok p) ↔
      r.Fits t.tapes ∧
        (t.mode = .strict →
          conflict? t.bindings (t.expand r) = none) := by
  constructor
  · intro hParts
    rcases hParts with ⟨p, hOk⟩
    rcases register_eq_ok_iff.mp hOk with
      ⟨hFits, hConflict, _hNext, _hg⟩
    exact ⟨hFits, hConflict⟩
  · intro hParts
    rcases hParts with ⟨hFits, hConflict⟩
    exact
      ⟨(_, _),
        register_eq_ok_iff.mpr ⟨hFits, hConflict, rfl, rfl⟩⟩

/- What a table answers after a rule was registered. -/
theorem lookup_of_register_eq_ok
    {t next : Table}
    {r : Rule}
    {g : Registration}
    (hOk : t.register r = .ok (next, g))
    (state : State)
    (symbols : List Symbol) :
    next.lookup state symbols =
      (lastAction? ⟨state, symbols⟩ (t.expand r)).or
        (t.lookup state symbols) := by
  rcases register_eq_ok_iff.mp hOk with
    ⟨_hFits, _hConflict, rfl, _hg⟩
  exact find?_bindAll t.bindings (t.expand r) _

------------------------------------------------------------
-- Edits
------------------------------------------------------------

/- What may be done to a table from outside. -/
inductive Edit where
  | register (r : Rule)
  | extendAlphabet (symbols : List Symbol)
  | setMode (mode : Mode)
  deriving DecidableEq, Repr

/- The table after an edit. A refused rule changes nothing. -/
def edit
    (t : Table) : Edit → Table
  | .register r =>
      match t.register r with
      | .ok (next, _) => next
      | .error _ => t
  | .extendAlphabet symbols => t.extendAlphabet symbols
  | .setMode mode => t.setMode mode

/- The table after edits in order. -/
def editAll
    (t : Table)
    (edits : List Edit) : Table :=
  edits.foldl edit t

/- The edit by a rule that is accepted. -/
theorem edit_of_register_eq_ok
    {t : Table}
    {r : Rule}
    {p : Table × Registration}
    (hOk : t.register r = .ok p) :
    t.edit (.register r) = p.1 := by
  simp [edit, hOk]

/- The edit by a rule that is refused. -/
theorem edit_of_register_eq_error
    {t : Table}
    {r : Rule}
    {e : Error}
    (hError : t.register r = .error e) :
    t.edit (.register r) = t := by
  simp [edit, hError]

/- No edit changes the number of tapes. -/
@[simp]
theorem tapes_edit
    (t : Table)
    (e : Edit) :
    (t.edit e).tapes = t.tapes := by
  cases e with
  | register r =>
      cases hRegister : t.register r with
      | error e => rw [edit_of_register_eq_error hRegister]
      | ok p =>
          rcases register_eq_ok_iff.mp hRegister with
            ⟨_hFits, _hConflict, hNext, _hg⟩
          rw [edit_of_register_eq_ok hRegister, hNext]
  | extendAlphabet symbols => rfl
  | setMode mode => rfl

/- Nor do edits in order. -/
@[simp]
theorem tapes_editAll
    (t : Table)
    (edits : List Edit) :
    (t.editAll edits).tapes = t.tapes := by
  induction edits generalizing t with
  | nil => rfl
  | cons e edits ih => exact (ih (t.edit e)).trans (tapes_edit t e)

------------------------------------------------------------
-- What Holds Of All Bindings
------------------------------------------------------------

/- The property holds of every key and the action that it has. -/
def Holds
    (P : Key → Action → Prop)
    (t : Table) : Prop :=
  ∀ state symbols a,
    t.lookup state symbols = some a → P ⟨state, symbols⟩ a

/- Anything holds of a table without actions. -/
theorem holds_ofSymbols
    (P : Key → Action → Prop)
    (tapes : Nat)
    (symbols : List Symbol) :
    (ofSymbols tapes symbols).Holds P := by
  intro state read a hLookup
  cases hLookup

/-
  Registering a rule keeps what holds of the rules that it
  stands for.
-/
theorem Holds.register
    {P : Key → Action → Prop}
    {t next : Table}
    {r : Rule}
    {g : Registration}
    (hTable : t.Holds P)
    (hOk : t.register r = .ok (next, g))
    (hRules : ∀ rule ∈ t.expand r, P rule.key rule.action) :
    next.Holds P := by
  intro state symbols a hLookup
  rw [lookup_of_register_eq_ok hOk] at hLookup
  rcases Option.or_eq_some_iff.mp hLookup with
    hNew | ⟨_hNone, hOld⟩
  · rcases exists_of_lastAction?_eq_some hNew with
      ⟨rule, hMem, hKey, rfl⟩
    rw [← hKey]
    exact hRules rule hMem
  · exact hTable state symbols a hOld

/-
  An edit keeps what holds of the rules that a registered rule
  stands for. Only rules that fit are registered.
-/
theorem Holds.edit
    {P : Key → Action → Prop}
    {t : Table}
    {e : Edit}
    (hTable : t.Holds P)
    (hRules :
      ∀ r, e = .register r → r.Fits t.tapes →
        ∀ rule ∈ t.expand r, P rule.key rule.action) :
    (t.edit e).Holds P := by
  cases e with
  | register r =>
      cases hRegister : t.register r with
      | error e =>
          rw [edit_of_register_eq_error hRegister]
          exact hTable
      | ok p =>
          have hFits := (register_eq_ok_iff.mp hRegister).1
          rw [edit_of_register_eq_ok hRegister]
          exact
            hTable.register hRegister (hRules r rfl hFits)
  | extendAlphabet symbols => exact hTable
  | setMode mode => exact hTable

------------------------------------------------------------
-- Tables That Fit
------------------------------------------------------------

/-
  The keys of a table have one symbol for every tape, and its
  actions write one symbol and make one movement on every tape.
-/
def Fits
    (t : Table) : Prop :=
  ∀ state symbols a,
    t.lookup state symbols = some a →
      symbols.length = t.tapes ∧
        a.write.length = t.tapes ∧
        a.moves.length = t.tapes

/- A table without actions fits. -/
theorem fits_ofSymbols
    (tapes : Nat)
    (symbols : List Symbol) :
    (ofSymbols tapes symbols).Fits := by
  intro state read a hLookup
  cases hLookup

/- An edit keeps a table fit. -/
theorem Fits.edit
    {t : Table}
    (hTable : t.Fits)
    (e : Edit) :
    (t.edit e).Fits := by
  have hHolds :
      (t.edit e).Holds fun key a =>
        key.read.length = t.tapes ∧
          a.write.length = t.tapes ∧
          a.moves.length = t.tapes := by
    apply Holds.edit
    · exact hTable
    · intro r _hEdit hFits rule hMem
      have hRule := fits_of_mem_expand hFits hMem
      exact ⟨hRule.read, hRule.write, hRule.moves⟩
  unfold Fits
  rw [tapes_edit]
  exact hHolds

end Table

end MultiTape
