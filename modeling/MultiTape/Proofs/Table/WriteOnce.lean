import MultiTape.Proofs.Table.RawRules
import MultiTape.Proofs.Table.StrictOrder

/-
  This file registers a rule on a table that is changed in
  place, one binding after the other, and shows that a rule
  which is refused leaves no trace. In strict mode the rules
  that a rule stands for are first noted apart from the table;
  what is found there is what the table would have held. So an
  action is bound to a key once and for all, and the first key
  that would be given another one is known.

  Key definitions include:
    * `Table.insert`
    * `Table.stagedConflict?`
    * `Table.registerInPlace`
    * `Table.Clashes`
    * `Table.ClashesAt`

  Main statements:
    * `Table.stagedConflict?_expand`
    * `Table.run_registerInPlace`
    * `Table.lookup_editAll_of_mode_eq_strict`
    * `Table.conflict?_expand_eq_some_iff`
    * `Table.registration_is_atomic_and_write_once`
-/

namespace MultiTape

namespace Table

------------------------------------------------------------
-- Registration In Place
------------------------------------------------------------

/- Bind one rule without wildcards. -/
def insert
    (t : Table)
    (r : Rule) : Table :=
  { t with bindings := t.bindings.insert r.key r.action }

/-
  The first key that rules for one state would give another
  action. The rules are noted by what they read, the last one
  in front, and what is noted hides what is in the table.
-/
def stagedConflict?
    (t : Table) :
    List (List Symbol × Action) → List Rule → Option Key
  | _, [] => none
  | staged, r :: rules =>
      if ∃ a ∈ (staged.lookup r.read).or
          (t.lookup r.state r.read), a ≠ r.action then
        some r.key
      else
        t.stagedConflict? ((r.read, r.action) :: staged) rules

/- End with the error, if there is one. -/
def raise : Option Error → EStateM Error Table Unit
  | some e => throw e
  | none => pure ()

/-
  Add a rule to a table that is changed in place. An error ends
  it with the table as it is by then.
-/
def registerInPlace
    (r : Rule) : EStateM Error Table Nat := do
  let t ← get
  raise (t.misfit? r)
  let rules := t.expand r
  if t.mode = .strict then
    raise ((t.stagedConflict? [] rules).map .conflictingRule)
  forM rules fun rule => modify fun t => t.insert rule
  return rules.length

/-
  What is noted, and behind it the table, answers for a state
  as the bindings do in which the noted rules stand.
-/
theorem stagedConflict?_eq_conflict?
    {t : Table}
    {state : State}
    {staged : List (List Symbol × Action)}
    {b : Bindings}
    {rules : List Rule}
    (hState : ∀ r ∈ rules, r.state = state)
    (hStaged :
      ∀ symbols,
        b.find? ⟨state, symbols⟩ =
          (staged.lookup symbols).or (t.lookup state symbols)) :
    t.stagedConflict? staged rules = conflict? b rules := by
  induction rules generalizing staged b with
  | nil => rfl
  | cons r rules ih =>
      have hr : r.state = state := hState r List.mem_cons_self
      have hFind :
          b.find? r.key =
            (staged.lookup r.read).or
              (t.lookup r.state r.read) := by
        rw [hr]
        have hKey : r.key = ⟨state, r.read⟩ := by
          rw [Rule.key, hr]
        rw [hKey]
        exact hStaged r.read
      have hNext :
          ∀ symbols,
            (b.insert r.key r.action).find? ⟨state, symbols⟩ =
              (List.lookup symbols
                ((r.read, r.action) :: staged)).or
                (t.lookup state symbols) := by
        intro symbols
        rw [Bindings.find?_insert, List.lookup_cons, hStaged,
          Rule.key, hr]
        by_cases hRead : symbols = r.read
        · simp [hRead]
        · simp [beq_false_of_ne hRead, Ne.symm hRead]
      have hLoses :
          (∃ a ∈ (staged.lookup r.read).or
              (t.lookup r.state r.read), a ≠ r.action) ↔
            Overwrites r b := by
        rw [← hFind]
        rfl
      rw [stagedConflict?, conflict?]
      by_cases hAnother : Overwrites r b
      · rw [if_pos (hLoses.mpr hAnother), if_pos hAnother]
      · rw [if_neg (mt hLoses.mp hAnother), if_neg hAnother]
        apply ih
        · intro rule hMem
          exact hState rule (List.mem_cons_of_mem r hMem)
        · exact hNext

/- The rules that a rule stands for are all for one state. -/
theorem stagedConflict?_expand
    (t : Table)
    (r : Rule) :
    t.stagedConflict? [] (t.expand r) =
      conflict? t.bindings (t.expand r) := by
  have hState : ∀ rule ∈ t.expand r, rule.state = r.state := by
    intro rule hMem
    exact state_of_mem_expand hMem
  apply stagedConflict?_eq_conflict? hState
  intro symbols
  rfl

/- Rules are bound in place as they are bound all at once. -/
theorem run_forM_insert
    (t : Table)
    (rules : List Rule) :
    (forM rules fun rule =>
        (modify fun t => t.insert rule :
          EStateM Error Table Unit)).run t =
      .ok ()
        { t with bindings := (bindAll t.bindings rules).1 } := by
  induction rules generalizing t with
  | nil => rfl
  | cons r rules ih => exact ih (t.insert r)

/-
  Registration in place does to the table what registration
  says, and nothing if the rule is refused.
-/
theorem run_registerInPlace
    (t : Table)
    (r : Rule) :
    (registerInPlace r).run t =
      match t.register r with
      | .ok (next, g) => .ok g.count next
      | .error e => .error e t := by
  have hBind := run_forM_insert t (t.expand r)
  unfold registerInPlace register
  simp only [EStateM.run_bind, EStateM.run_get,
    stagedConflict?_expand]
  cases t.misfit? r with
  | some e => rfl
  | none =>
      by_cases hMode : t.mode = .strict
      · cases conflict? t.bindings (t.expand r) with
        | some key =>
            simp only [if_pos hMode]
            rfl
        | none =>
            simp only [if_pos hMode, raise, Option.map_none,
              EStateM.run_bind, EStateM.run_pure, hBind]
      · simp only [if_neg hMode, raise, EStateM.run_bind,
          EStateM.run_pure, hBind]

/- The error of a refused rule. -/
theorem register_eq_error_cases
    {t : Table}
    {r : Rule}
    {e : Error}
    (hError : t.register r = .error e) :
    (∃ part found,
      e = .malformedRule r.state part found t.tapes) ∨
      ∃ key,
        e = .conflictingRule key ∧
          r.Fits t.tapes ∧
          conflict? t.bindings (t.expand r) = some key := by
  rcases register_eq_error_iff.mp hError with
    hMisfit | ⟨hFits, _hMode, key, hConflict, hKey⟩
  · exact Or.inl (exists_of_misfit?_eq_some hMisfit)
  · exact Or.inr ⟨key, hKey, hFits, hConflict⟩

------------------------------------------------------------
-- Bindings That Stay
------------------------------------------------------------

/- In strict mode an edit takes no action away. -/
theorem lookup_edit_of_mode_eq_strict
    {t : Table}
    (hMode : t.mode = .strict)
    (e : Edit)
    {state : State}
    {symbols : List Symbol}
    {a : Action}
    (hLookup : t.lookup state symbols = some a) :
    (t.edit e).lookup state symbols = some a := by
  cases e with
  | register r =>
      cases hRegister : t.register r with
      | error e =>
          rw [edit_of_register_eq_error hRegister]
          exact hLookup
      | ok p =>
          rcases register_eq_ok_iff.mp hRegister with
            ⟨_hFits, hConflict, hNext, _hg⟩
          rw [edit_of_register_eq_ok hRegister, hNext]
          exact
            (find?_bindAll_eq_some_iff (hConflict hMode)).mpr
              (Or.inl hLookup)
  | extendAlphabet symbols => exact hLookup
  | setMode mode => exact hLookup

/- The mode stays strict unless an edit sets another one. -/
theorem mode_edit_of_mode_eq_strict
    {t : Table}
    {e : Edit}
    (hMode : t.mode = .strict)
    (hEdit : ∀ mode, e = .setMode mode → mode = .strict) :
    (t.edit e).mode = .strict := by
  cases e with
  | register r =>
      cases hRegister : t.register r with
      | error e =>
          rw [edit_of_register_eq_error hRegister]
          exact hMode
      | ok p =>
          rcases register_eq_ok_iff.mp hRegister with
            ⟨_hFits, _hConflict, hNext, _hg⟩
          rw [edit_of_register_eq_ok hRegister, hNext]
          exact hMode
  | extendAlphabet symbols => exact hMode
  | setMode mode => exact hEdit mode rfl

/- Nor do edits in order, as long as the mode stays strict. -/
theorem lookup_editAll_of_mode_eq_strict
    {t : Table}
    {edits : List Edit}
    (hMode : t.mode = .strict)
    (hEdits : ∀ mode, .setMode mode ∈ edits → mode = .strict)
    {state : State}
    {symbols : List Symbol}
    {a : Action}
    (hLookup : t.lookup state symbols = some a) :
    (t.editAll edits).lookup state symbols = some a := by
  induction edits generalizing t with
  | nil => exact hLookup
  | cons e edits ih =>
      apply ih
      · apply mode_edit_of_mode_eq_strict hMode
        rintro mode rfl
        exact hEdits mode List.mem_cons_self
      · intro mode hMem
        exact hEdits mode (List.mem_cons_of_mem e hMem)
      · exact lookup_edit_of_mode_eq_strict hMode e hLookup

------------------------------------------------------------
-- The First Conflict
------------------------------------------------------------

/-
  The key of a rule has another action in the bindings, or is
  given another one by a rule before it.
-/
def Clashes
    (b : Bindings)
    (before : List Rule)
    (r : Rule) : Prop :=
  ∃ a, Offers b before r.key a ∧ a ≠ r.action

/-
  The key of a conflict is that of the first rule that clashes
  with the bindings and the rules before it.
-/
theorem conflict?_eq_some_iff
    {b : Bindings}
    {rules : List Rule}
    {k : Key} :
    conflict? b rules = some k ↔
      ∃ before r after,
        rules = before ++ r :: after ∧
          r.key = k ∧
          conflict? b before = none ∧
          Clashes b before r := by
  constructor
  · intro hSome
    induction rules generalizing b with
    | nil => cases hSome
    | cons r rules ih =>
        unfold conflict? at hSome
        split at hSome
        · next hLoses =>
            rcases hLoses with ⟨a, hFind, hNe⟩
            refine ⟨[], r, rules, rfl, ?_, rfl, ?_⟩
            · exact Option.some.inj hSome
            · exact ⟨a, Or.inl hFind, hNe⟩
        · next hFree =>
            rcases ih hSome with
              ⟨before, rule, after, rfl, hKey, hNone, a,
                hOffers, hNe⟩
            refine
              ⟨r :: before, rule, after, rfl, hKey, ?_, a, ?_,
                hNe⟩
            · rw [conflict?, if_neg hFree]
              exact hNone
            · exact (offers_insert_iff hFree).mp hOffers
  · rintro ⟨before, r, after, rfl, rfl, hNone, a, hOffers, hNe⟩
    have hLoses : Overwrites r (bindAll b before).1 :=
      ⟨a, (find?_bindAll_eq_some_iff hNone).mpr hOffers, hNe⟩
    rw [conflict?_append, hNone, Option.none_or, conflict?,
      if_pos hLoses]

/- There is no conflict exactly when no rule clashes. -/
theorem conflict?_eq_none_iff_forall_not_clashes
    {b : Bindings}
    {rules : List Rule} :
    conflict? b rules = none ↔
      ∀ before r after, rules = before ++ r :: after →
        ¬ Clashes b before r := by
  constructor
  · rintro hNone before r after rfl ⟨a, hOffers, hNe⟩
    have hConsistent := conflict?_eq_none_iff.mp hNone
    apply hNe
    apply hConsistent r.key
    · rcases hOffers with hFind | ⟨rule, hMem, hRule⟩
      · exact Or.inl hFind
      · exact
          Or.inr
            ⟨rule, List.mem_append_left _ hMem, hRule⟩
    · exact
        Or.inr
          ⟨r, List.mem_append_right _ List.mem_cons_self, rfl,
            rfl⟩
  · intro hFree
    apply Option.eq_none_iff_forall_ne_some.mpr
    intro k hSome
    rcases conflict?_eq_some_iff.mp hSome with
      ⟨before, r, after, hRules, _hKey, _hNone, hClashes⟩
    exact hFree before r after hRules hClashes

/- Rules that are bound already do not conflict. -/
theorem conflict?_eq_none_of_forall_find?
    {b : Bindings}
    {rules : List Rule}
    (hBound : ∀ r ∈ rules, b.find? r.key = some r.action) :
    conflict? b rules = none := by
  have hOffers :
      ∀ k a, Offers b rules k a → b.find? k = some a := by
    rintro k a (hFind | ⟨r, hMem, rfl, rfl⟩)
    · exact hFind
    · exact hBound r hMem
  rw [conflict?_eq_none_iff]
  intro k a a' hFirst hSecond
  exact
    Option.some.inj
      ((hOffers k a hFirst).symm.trans (hOffers k a' hSecond))

/-
  For a conflict it makes no difference if a rule without
  wildcards is taken once or once for every symbol.
-/
theorem conflict?_expand
    (t : Table)
    (r : Rule) :
    conflict? t.bindings (t.expand r) =
      conflict? t.bindings
        (t.alphabet.symbols.map r.substitute) := by
  by_cases hWildcard : r.HasWildcard
  · rw [expand_of_hasWildcard hWildcard]
  · have hSame : ∀ c, r.substitute c = r := by
      intro c
      have hRead : Symbol.wildcard ∉ r.read :=
        fun h => hWildcard (Or.inl h)
      have hWrite : Symbol.wildcard ∉ r.write :=
        fun h => hWildcard (Or.inr h)
      rw [Rule.substitute, Rule.fill_of_not_mem hRead,
        Rule.fill_of_not_mem hWrite]
    rw [expand_of_not_hasWildcard hWildcard]
    cases hSymbols : t.alphabet.symbols with
    | nil =>
        exact
          absurd hSymbols
            (List.ne_nil_of_mem t.alphabet.blank_mem)
    | cons c rest =>
        have hAgain :
            conflict? (bindAll t.bindings [r]).1
              (rest.map r.substitute) = none := by
          apply conflict?_eq_none_of_forall_find?
          intro rule hMem
          rcases List.mem_map.mp hMem with ⟨d, _hd, rfl⟩
          rw [hSame]
          exact
            (Bindings.find?_insert _ _ _ _).trans (if_pos rfl)
        have hSplit :
            (c :: rest).map r.substitute =
              [r] ++ rest.map r.substitute := by
          rw [List.map_cons, hSame]
          rfl
        rw [hSplit, conflict?_append, hAgain, Option.or_none]

/-
  The symbols before a symbol of an alphabet are those below
  it.
-/
theorem mem_before_iff_lt
    {symbols before after : List Symbol}
    {c d : Symbol}
    (hAscending : symbols.Pairwise (· < ·))
    (hSplit : symbols = before ++ c :: after) :
    d ∈ before ↔ d ∈ symbols ∧ d < c := by
  subst hSplit
  rcases List.pairwise_append.mp hAscending with
    ⟨_hBefore, hAfter, hAcross⟩
  constructor
  · intro hMem
    exact
      ⟨List.mem_append_left _ hMem,
        hAcross d hMem c List.mem_cons_self⟩
  · rintro ⟨hMem, hLt⟩
    rcases List.mem_append.mp hMem with hBefore | hRest
    · exact hBefore
    · exfalso
      rcases List.mem_cons.mp hRest with rfl | hLater
      · exact Char.lt_irrefl d hLt
      · have hGt := List.rel_of_pairwise_cons hAfter hLater
        exact Char.lt_irrefl d (Char.lt_trans hLt hGt)

/-
  What a symbol makes of a rule has a key with another action
  in the table, or one that a lesser symbol gives another.
-/
def ClashesAt
    (t : Table)
    (r : Rule)
    (c : Symbol) : Prop :=
  (∃ a,
    t.lookup (r.substitute c).state (r.substitute c).read =
        some a ∧
      a ≠ (r.substitute c).action) ∨
    ∃ d ∈ t.alphabet,
      d < c ∧
        (r.substitute d).key = (r.substitute c).key ∧
        (r.substitute d).action ≠ (r.substitute c).action

/-
  A symbol clashes exactly when what it makes of the rule
  does.
-/
theorem clashes_map_substitute_iff
    {t : Table}
    {r : Rule}
    {before after : List Symbol}
    {c : Symbol}
    (hSplit : t.alphabet.symbols = before ++ c :: after) :
    Clashes t.bindings (before.map r.substitute)
        (r.substitute c) ↔
      t.ClashesAt r c := by
  have hBefore :
      ∀ d, d ∈ before ↔ d ∈ t.alphabet.symbols ∧ d < c :=
    fun _ => mem_before_iff_lt t.alphabet.ascending hSplit
  constructor
  · rintro ⟨a, hFind | ⟨rule, hMem, hKey, rfl⟩, hNe⟩
    · exact Or.inl ⟨a, hFind, hNe⟩
    · rcases List.mem_map.mp hMem with ⟨d, hd, rfl⟩
      rcases (hBefore d).mp hd with ⟨hSymbol, hLt⟩
      exact Or.inr ⟨d, hSymbol, hLt, hKey, hNe⟩
  · rintro (⟨a, hLookup, hNe⟩ | ⟨d, hSymbol, hLt, hKey, hNe⟩)
    · exact ⟨a, Or.inl hLookup, hNe⟩
    · have hd := (hBefore d).mpr ⟨hSymbol, hLt⟩
      exact
        ⟨_, Or.inr ⟨_, List.mem_map_of_mem hd, hKey, rfl⟩, hNe⟩

/- Below a symbol there is no conflict if no symbol clashes. -/
theorem conflict?_map_substitute_eq_none_iff
    {t : Table}
    {r : Rule}
    {before after : List Symbol}
    {c : Symbol}
    (hSplit : t.alphabet.symbols = before ++ c :: after) :
    conflict? t.bindings (before.map r.substitute) = none ↔
      ∀ d ∈ t.alphabet, d < c → ¬ t.ClashesAt r d := by
  have hBefore :
      ∀ d, d ∈ before ↔ d ∈ t.alphabet.symbols ∧ d < c :=
    fun _ => mem_before_iff_lt t.alphabet.ascending hSplit
  -- What stands before a lesser symbol stands before it among
  -- all symbols too.
  have hEarlier :
      ∀ first d last, before = first ++ d :: last →
        t.alphabet.symbols =
          first ++ d :: (last ++ c :: after) := by
    rintro first d last rfl
    rw [hSplit, List.append_assoc, List.cons_append]
  rw [conflict?_eq_none_iff_forall_not_clashes]
  constructor
  · intro hNone d hMem hLt
    rcases List.append_of_mem ((hBefore d).mpr ⟨hMem, hLt⟩)
      with ⟨first, last, hFirst⟩
    rw [← clashes_map_substitute_iff (hEarlier _ _ _ hFirst)]
    apply hNone
    rw [hFirst, List.map_append, List.map_cons]
  · intro hNone first rule last hRules
    rcases List.map_eq_append_iff.mp hRules with
      ⟨lesser, rest, hFirst, rfl, hRest⟩
    rcases List.map_eq_cons_iff.mp hRest with
      ⟨d, greater, rfl, rfl, _hLast⟩
    have hMem : d ∈ before := by
      rw [hFirst]
      exact List.mem_append_right _ List.mem_cons_self
    rcases (hBefore d).mp hMem with ⟨hSymbol, hLt⟩
    rw [clashes_map_substitute_iff (hEarlier _ _ _ hFirst)]
    exact hNone d hSymbol hLt

/-
  The key of a conflict is that of the least symbol that
  clashes.
-/
theorem conflict?_expand_eq_some_iff
    {t : Table}
    {r : Rule}
    {k : Key} :
    conflict? t.bindings (t.expand r) = some k ↔
      ∃ c ∈ t.alphabet,
        (r.substitute c).key = k ∧
          t.ClashesAt r c ∧
          ∀ d ∈ t.alphabet, d < c → ¬ t.ClashesAt r d := by
  rw [conflict?_expand, conflict?_eq_some_iff]
  constructor
  · rintro ⟨before, rule, after, hRules, hKey, hNone, hClashes⟩
    rcases List.map_eq_append_iff.mp hRules with
      ⟨lesser, rest, hSplit, rfl, hRest⟩
    rcases List.map_eq_cons_iff.mp hRest with
      ⟨c, greater, rfl, rfl, _hAfter⟩
    have hMem : c ∈ t.alphabet := by
      rw [Alphabet.mem_def, hSplit]
      exact List.mem_append_right _ List.mem_cons_self
    exact
      ⟨c, hMem, hKey,
        (clashes_map_substitute_iff hSplit).mp hClashes,
        (conflict?_map_substitute_eq_none_iff hSplit).mp hNone⟩
  · rintro ⟨c, hMem, hKey, hClashes, hFirst⟩
    rcases List.append_of_mem hMem with
      ⟨lesser, greater, hSplit⟩
    refine
      ⟨lesser.map r.substitute, r.substitute c,
        greater.map r.substitute, ?_, hKey,
        (conflict?_map_substitute_eq_none_iff hSplit).mpr
          hFirst,
        (clashes_map_substitute_iff hSplit).mpr hClashes⟩
    rw [hSplit, List.map_append, List.map_cons]

/- In strict mode a rule that fits is refused for a conflict. -/
theorem register_eq_conflictingRule_iff
    {t : Table}
    {r : Rule}
    {k : Key}
    (hMode : t.mode = .strict) :
    t.register r = .error (.conflictingRule k) ↔
      r.Fits t.tapes ∧
        conflict? t.bindings (t.expand r) = some k := by
  constructor
  · intro hError
    rcases register_eq_error_cases hError with
      ⟨part, found, hOther⟩ | ⟨key, hSame, hFits, hConflict⟩
    · cases hOther
    · cases hSame
      exact ⟨hFits, hConflict⟩
  · rintro ⟨hFits, hConflict⟩
    rw [register_of_mode_eq_strict hMode hFits, hConflict]

/-
  Registration is all or nothing. Done in place, it leaves the
  table as it was whenever it ends with an error, which is one
  about the parts of the rule or a conflict. In strict mode an
  action stays bound to its key as long as the mode stays
  strict, whatever else is done; and there is a conflict exactly
  for a rule that fits and a symbol of the alphabet that gives
  a key another action than the table or a lesser symbol does,
  at the key of the least such symbol.
-/
theorem registration_is_atomic_and_write_once
    (t : Table) :
    (∀ r,
      (registerInPlace r).run t =
        match t.register r with
        | .ok (next, g) => .ok g.count next
        | .error e => .error e t) ∧
      (∀ r e, t.register r = .error e →
        (registerInPlace r).run t = .error e t ∧
          t.edit (.register r) = t ∧
          ((∃ part found,
            e = .malformedRule r.state part found t.tapes) ∨
            ∃ key, e = .conflictingRule key)) ∧
      (t.mode = .strict →
        ∀ edits,
          (∀ mode, .setMode mode ∈ edits → mode = .strict) →
          ∀ state symbols a,
            t.lookup state symbols = some a →
            (t.editAll edits).lookup state symbols =
              some a) ∧
      (t.mode = .strict →
        ∀ r key,
          t.register r = .error (.conflictingRule key) ↔
            r.Fits t.tapes ∧
              ∃ c ∈ t.alphabet,
                (r.substitute c).key = key ∧
                  t.ClashesAt r c ∧
                  ∀ d ∈ t.alphabet, d < c →
                    ¬ t.ClashesAt r d) := by
  refine ⟨t.run_registerInPlace, ?_, ?_, ?_⟩
  · intro r e hError
    refine ⟨?_, edit_of_register_eq_error hError, ?_⟩
    · rw [run_registerInPlace, hError]
    · rcases register_eq_error_cases hError with
        hMisfit | ⟨key, hKey, _hFits, _hConflict⟩
      · exact Or.inl hMisfit
      · exact Or.inr ⟨key, hKey⟩
  · intro hMode edits hEdits state symbols a hLookup
    exact
      lookup_editAll_of_mode_eq_strict hMode hEdits hLookup
  · intro hMode r key
    rw [register_eq_conflictingRule_iff hMode,
      conflict?_expand_eq_some_iff]

/-
  A table in strict mode over three symbols, with one action.
-/
def boundOnce : Table :=
  ((ofSymbols 1 ['a', 'b']).setMode .strict).edit
    (.register
      { state := "p"
        read := ['b']
        nextState := "q"
        write := ['b']
        moves := [.right] })

/- A rule that leaves everything as it is. -/
def idling : Rule :=
  { state := "p"
    read := [Symbol.wildcard]
    nextState := "p"
    write := [Symbol.wildcard]
    moves := [.stay] }

/- A rule that writes any symbol over a blank. -/
def guessing : Rule :=
  { state := "p"
    read := [Symbol.blank]
    nextState := "p"
    write := [Symbol.wildcard]
    moves := [.stay] }

/-
  Of two rules, the first clashes with the table at its last
  symbol and the second with itself at its second. Neither
  leaves a trace, and the action stays.
-/
theorem registration_of_clashing_rules :
    (registerInPlace idling).run boundOnce =
        .error (.conflictingRule ⟨"p", ['b']⟩) boundOnce ∧
      (registerInPlace guessing).run boundOnce =
        .error (.conflictingRule ⟨"p", ['_']⟩) boundOnce ∧
      boundOnce.ClashesAt idling 'b' ∧
      ¬ boundOnce.ClashesAt idling 'a' ∧
      (boundOnce.editAll
          [.register idling, .extendAlphabet ['c'],
            .register guessing]).lookup "p" ['b'] =
        some ⟨"q", ['b'], [.right]⟩ := by
  rcases registration_is_atomic_and_write_once boundOnce with
    ⟨_hRun, hError, hStays, hClashes⟩
  have hIdling :
      boundOnce.register idling =
        .error (.conflictingRule ⟨"p", ['b']⟩) :=
    rfl
  have hGuessing :
      boundOnce.register guessing =
        .error (.conflictingRule ⟨"p", ['_']⟩) :=
    rfl
  rcases (hClashes rfl idling ⟨"p", ['b']⟩).mp hIdling with
    ⟨_hFits, c, _hMem, hKey, hAt, hLeast⟩
  have hSymbol : c = 'b' := by
    cases hKey
    rfl
  subst hSymbol
  refine
    ⟨(hError _ _ hIdling).1, (hError _ _ hGuessing).1, hAt,
      hLeast 'a' (by decide) (by decide), ?_⟩
  refine hStays rfl _ ?_ "p" ['b'] _ rfl
  intro mode hMem
  simp at hMem

end Table

end MultiTape
