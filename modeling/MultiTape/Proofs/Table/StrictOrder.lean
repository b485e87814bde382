import MultiTape.Proofs.Table.Registration

/-
  This file shows that in strict mode the order of rules does
  not matter. Rules are accepted in one order exactly when they
  are accepted in every other, and they then give the same
  actions: no key is given two by the rules and the table
  together.

  Key definitions include:
    * `Table.registerAll`
    * `Table.Offers`
    * `Table.Consistent`

  Main statements:
    * `Bindings.size_eq_of_find?_eq`
    * `Table.conflict?_eq_none_iff`
    * `Table.find?_bindAll_eq_some_iff`
    * `Table.registerAll_of_mode_eq_strict`
    * `Table.strict_registration_ignores_order`
-/

namespace MultiTape

------------------------------------------------------------
-- Equal Bindings
------------------------------------------------------------

/- As many keys are bound where the same keys are bound. -/
theorem Bindings.size_eq_of_find?_eq
    {b b' : Bindings}
    (hFind : ∀ k, b'.find? k = b.find? k) :
    b'.size = b.size := by
  rcases b.exists_keys with ⟨keys, hNodup, hLength, hMem⟩
  rcases b'.exists_keys with
    ⟨keys', hNodup', hLength', hMem'⟩
  have hSame : ∀ k, k ∈ keys' ↔ k ∈ keys := by
    intro k
    rw [hMem', hMem, hFind]
  have hPerm :=
    (List.perm_ext_iff_of_nodup hNodup' hNodup).mpr hSame
  rw [← hLength', ← hLength]
  exact hPerm.length_eq

namespace Table

------------------------------------------------------------
-- Bindings And Rules Together
------------------------------------------------------------

/- The key has the action, or one of the rules gives it. -/
def Offers
    (b : Bindings)
    (rules : List Rule)
    (k : Key)
    (a : Action) : Prop :=
  b.find? k = some a ∨
    ∃ r ∈ rules, r.key = k ∧ r.action = a

/- No key is given two actions. -/
def Consistent
    (b : Bindings)
    (rules : List Rule) : Prop :=
  ∀ k a a',
    Offers b rules k a → Offers b rules k a' → a = a'

/- Without rules a key has the action that is bound to it. -/
theorem offers_nil_iff
    {b : Bindings}
    {k : Key}
    {a : Action} :
    Offers b [] k a ↔ b.find? k = some a := by
  simp [Offers]

/- Rules offer the same actions in every order. -/
theorem offers_congr
    {b : Bindings}
    {rules rules' : List Rule}
    (hMem : ∀ r, r ∈ rules' ↔ r ∈ rules)
    {k : Key}
    {a : Action} :
    Offers b rules' k a ↔ Offers b rules k a := by
  simp [Offers, hMem]

/-
  Binding the first rule makes no difference to what is
  offered, if the key of that rule has no other action.
-/
theorem offers_insert_iff
    {b : Bindings}
    {r : Rule}
    {rules : List Rule}
    {k : Key}
    {a : Action}
    (hFree : ¬ Overwrites r b) :
    Offers (b.insert r.key r.action) rules k a ↔
      Offers b (r :: rules) k a := by
  unfold Offers
  rw [Bindings.find?_insert]
  by_cases hKey : r.key = k
  · have hSame : b.find? k = some a → r.action = a := by
      intro hFind
      apply Decidable.byContradiction
      intro hNe
      refine hFree ⟨a, ?_, Ne.symm hNe⟩
      rw [hKey]
      exact hFind
    simp only [hKey, if_true, Option.some.injEq,
      List.mem_cons, exists_eq_or_imp, true_and]
    constructor
    · exact Or.inr
    · rintro (hFind | hEither)
      · exact Or.inl (hSame hFind)
      · exact hEither
  · simp [hKey]

/-
  There is no conflict among rules exactly when no key is given
  two actions by them and by what is bound already.
-/
theorem conflict?_eq_none_iff
    {b : Bindings}
    {rules : List Rule} :
    conflict? b rules = none ↔ Consistent b rules := by
  induction rules generalizing b with
  | nil =>
      refine iff_of_true rfl ?_
      intro k a a' hFirst hSecond
      rw [offers_nil_iff] at hFirst hSecond
      exact Option.some.inj (hFirst.symm.trans hSecond)
  | cons r rules ih =>
      unfold conflict?
      by_cases hLoses : Overwrites r b
      · rw [if_pos hLoses]
        rcases hLoses with ⟨a, hFind, hNe⟩
        refine iff_of_false (by simp) ?_
        intro hConsistent
        apply hNe
        apply hConsistent r.key
        · exact Or.inl hFind
        · exact Or.inr ⟨r, List.mem_cons_self, rfl, rfl⟩
      · rw [if_neg hLoses, ih]
        unfold Consistent
        simp only [offers_insert_iff hLoses]

/-
  After binding rules that are consistent, a key has exactly
  the action that is offered to it.
-/
theorem find?_bindAll_eq_some_iff
    {b : Bindings}
    {rules : List Rule}
    {k : Key}
    {a : Action}
    (hNone : conflict? b rules = none) :
    (bindAll b rules).1.find? k = some a ↔
      Offers b rules k a := by
  induction rules generalizing b with
  | nil => exact offers_nil_iff.symm
  | cons r rules ih =>
      unfold conflict? at hNone
      split at hNone
      · cases hNone
      · next hFree =>
          rw [← offers_insert_iff hFree]
          exact ih hNone

------------------------------------------------------------
-- Rules In Order
------------------------------------------------------------

/- Rules bound in two parts are bound one part after the other. -/
theorem bindAll_append
    (b : Bindings)
    (rules more : List Rule) :
    (bindAll b (rules ++ more)).1 =
      (bindAll (bindAll b rules).1 more).1 := by
  induction rules generalizing b with
  | nil => rfl
  | cons r rules ih => exact ih (b.insert r.key r.action)

/- A conflict is in the first part, or in the second after it. -/
theorem conflict?_append
    (b : Bindings)
    (rules more : List Rule) :
    conflict? b (rules ++ more) =
      (conflict? b rules).or
        (conflict? (bindAll b rules).1 more) := by
  induction rules generalizing b with
  | nil => rfl
  | cons r rules ih =>
      rw [List.cons_append, conflict?, conflict?]
      by_cases hLoses : Overwrites r b
      · simp [hLoses]
      · rw [if_neg hLoses, if_neg hLoses]
        exact ih (b.insert r.key r.action)

/-
  Register rules one after the other, up to the first that is
  refused, with the number of rules that each stands for.
-/
def registerAll :
    Table → List Rule → Except Error (Table × List Nat)
  | t, [] => .ok (t, [])
  | t, r :: rules =>
      match t.register r with
      | .error e => .error e
      | .ok (next, g) =>
          (next.registerAll rules).map fun p =>
            (p.1, g.count :: p.2)

/- In strict mode a rule that fits is refused for a conflict only. -/
theorem register_of_mode_eq_strict
    {t : Table}
    {r : Rule}
    (hMode : t.mode = .strict)
    (hFits : r.Fits t.tapes) :
    t.register r =
      match conflict? t.bindings (t.expand r) with
      | some key => .error (.conflictingRule key)
      | none =>
          .ok
            ({ t with
                bindings :=
                  (bindAll t.bindings (t.expand r)).1 },
              ⟨(t.expand r).length,
                (bindAll t.bindings (t.expand r)).2⟩) := by
  unfold register
  rw [misfit?_eq_none_iff.mpr hFits, hMode]
  rfl

/-
  In strict mode rules that fit are registered one after the
  other as if all that they stand for were bound at once. The
  alphabet stays the same meanwhile, so it is known from the
  start what each of them stands for.
-/
theorem registerAll_of_mode_eq_strict
    {t : Table}
    {rules : List Rule}
    (hMode : t.mode = .strict)
    (hFits : ∀ r ∈ rules, r.Fits t.tapes) :
    t.registerAll rules =
      match conflict? t.bindings (rules.flatMap t.expand) with
      | some key => .error (.conflictingRule key)
      | none =>
          .ok
            ({ t with
                bindings :=
                  (bindAll t.bindings
                    (rules.flatMap t.expand)).1 },
              rules.map fun r => (t.expand r).length) := by
  induction rules generalizing t with
  | nil => rfl
  | cons r rules ih =>
      have hFirst :=
        register_of_mode_eq_strict hMode
          (hFits r List.mem_cons_self)
      rw [List.flatMap_cons, conflict?_append,
        bindAll_append, registerAll, hFirst]
      cases conflict? t.bindings (t.expand r) with
      | some key => rfl
      | none =>
          have hRest :=
            @ih
              { t with
                bindings :=
                  (bindAll t.bindings (t.expand r)).1 }
              hMode
              (fun rule hMem =>
                hFits rule (List.mem_cons_of_mem r hMem))
          simp only [hRest, Option.none_or]
          have hExpand :
              ({ t with
                  bindings :=
                    (bindAll t.bindings
                      (t.expand r)).1 } : Table).expand =
                t.expand :=
            rfl
          rw [hExpand]
          cases conflict? (bindAll t.bindings (t.expand r)).1
              (rules.flatMap t.expand) with
          | some key => rfl
          | none => rfl

/- What rules that are registered in strict mode come to. -/
theorem registerAll_eq_ok_iff
    {t last : Table}
    {rules : List Rule}
    {counts : List Nat}
    (hMode : t.mode = .strict)
    (hFits : ∀ r ∈ rules, r.Fits t.tapes) :
    t.registerAll rules = .ok (last, counts) ↔
      Consistent t.bindings (rules.flatMap t.expand) ∧
        last =
          { t with
            bindings :=
              (bindAll t.bindings
                (rules.flatMap t.expand)).1 } ∧
        counts = rules.map fun r => (t.expand r).length := by
  rw [registerAll_of_mode_eq_strict hMode hFits,
    ← conflict?_eq_none_iff]
  cases conflict? t.bindings (rules.flatMap t.expand) with
  | some key => simp
  | none => simp [@eq_comm _ last, @eq_comm _ counts]

/- When rules are accepted in strict mode. -/
theorem exists_registerAll_eq_ok_iff
    {t : Table}
    {rules : List Rule}
    (hMode : t.mode = .strict)
    (hFits : ∀ r ∈ rules, r.Fits t.tapes) :
    (∃ p, t.registerAll rules = .ok p) ↔
      Consistent t.bindings (rules.flatMap t.expand) := by
  constructor
  · intro hParts
    rcases hParts with ⟨p, hOk⟩
    exact ((registerAll_eq_ok_iff hMode hFits).mp hOk).1
  · intro hConsistent
    exact
      ⟨(_, _),
        (registerAll_eq_ok_iff hMode hFits).mpr
          ⟨hConsistent, rfl, rfl⟩⟩

/- When rules are refused in strict mode, and why. -/
theorem exists_registerAll_eq_error_iff
    {t : Table}
    {rules : List Rule}
    (hMode : t.mode = .strict)
    (hFits : ∀ r ∈ rules, r.Fits t.tapes) :
    (∃ key,
        t.registerAll rules = .error (.conflictingRule key)) ↔
      ¬ Consistent t.bindings (rules.flatMap t.expand) := by
  rw [registerAll_of_mode_eq_strict hMode hFits,
    ← conflict?_eq_none_iff]
  cases conflict? t.bindings (rules.flatMap t.expand) with
  | some key => simp
  | none => simp

/- The actions of a table after rules in strict mode. -/
theorem lookup_of_registerAll_eq_ok
    {t last : Table}
    {rules : List Rule}
    {counts : List Nat}
    (hMode : t.mode = .strict)
    (hFits : ∀ r ∈ rules, r.Fits t.tapes)
    (hOk : t.registerAll rules = .ok (last, counts))
    {state : State}
    {symbols : List Symbol}
    {a : Action} :
    last.lookup state symbols = some a ↔
      Offers t.bindings (rules.flatMap t.expand)
        ⟨state, symbols⟩ a := by
  rcases (registerAll_eq_ok_iff hMode hFits).mp hOk with
    ⟨hConsistent, rfl, _hCounts⟩
  exact
    find?_bindAll_eq_some_iff
      (conflict?_eq_none_iff.mpr hConsistent)

------------------------------------------------------------
-- Rules In Any Order
------------------------------------------------------------

/-
  In strict mode the order of rules does not matter. Rules that
  fit are accepted exactly when no key is given two actions by
  the table and all that they stand for, and so in one order
  exactly when in every other. Then both orders lead to the
  same actions, as many of them, and each rule stands for as
  many rules in both. Otherwise both orders end with a conflict.
-/
theorem strict_registration_ignores_order
    {t : Table}
    {rules rules' : List Rule}
    (hMode : t.mode = .strict)
    (hFits : ∀ r ∈ rules, r.Fits t.tapes)
    (hPerm : rules.Perm rules') :
    ((∃ p, t.registerAll rules = .ok p) ↔
        Consistent t.bindings (rules.flatMap t.expand)) ∧
      ((∃ p, t.registerAll rules' = .ok p) ↔
        ∃ p, t.registerAll rules = .ok p) ∧
      (∀ last counts last' counts',
        t.registerAll rules = .ok (last, counts) →
          t.registerAll rules' = .ok (last', counts') →
          (∀ state symbols,
            last'.lookup state symbols =
              last.lookup state symbols) ∧
            last'.size = last.size ∧
            counts =
              (rules.map fun r => (t.expand r).length) ∧
            counts' =
              rules'.map fun r => (t.expand r).length) ∧
      ((¬ ∃ p, t.registerAll rules = .ok p) →
        ∃ key key',
          t.registerAll rules =
              .error (.conflictingRule key) ∧
            t.registerAll rules' =
              .error (.conflictingRule key')) := by
  have hFits' : ∀ r ∈ rules', r.Fits t.tapes := by
    intro r hMem
    exact hFits r (hPerm.mem_iff.mpr hMem)
  -- Both orders offer the same, so all that was said of one
  -- order in terms of offers holds of the other.
  have hOffers :
      ∀ k a,
        Offers t.bindings (rules'.flatMap t.expand) k a ↔
          Offers t.bindings (rules.flatMap t.expand) k a := by
    intro k a
    apply offers_congr
    intro rule
    exact (hPerm.flatMap_right t.expand).mem_iff.symm
  have hConsistent :
      Consistent t.bindings (rules'.flatMap t.expand) ↔
        Consistent t.bindings (rules.flatMap t.expand) := by
    unfold Consistent
    simp only [hOffers]
  have hAccepted := exists_registerAll_eq_ok_iff hMode hFits
  have hAccepted' := exists_registerAll_eq_ok_iff hMode hFits'
  refine
    ⟨hAccepted,
      hAccepted'.trans (hConsistent.trans hAccepted.symm),
      ?_, ?_⟩
  · intro last counts last' counts' hOk hOk'
    have hLookup :
        ∀ state symbols,
          last'.lookup state symbols =
            last.lookup state symbols := by
      intro state symbols
      apply Option.ext
      intro a
      rw [lookup_of_registerAll_eq_ok hMode hFits hOk,
        lookup_of_registerAll_eq_ok hMode hFits' hOk',
        hOffers]
    refine ⟨hLookup, ?_, ?_, ?_⟩
    · apply Bindings.size_eq_of_find?_eq
      intro k
      exact hLookup k.state k.read
    · exact
        ((registerAll_eq_ok_iff hMode hFits).mp hOk).2.2
    · exact
        ((registerAll_eq_ok_iff hMode hFits').mp hOk').2.2
  · intro hRefused
    rw [hAccepted] at hRefused
    rcases (exists_registerAll_eq_error_iff hMode hFits).mpr
        hRefused with
      ⟨key, hConflict⟩
    rcases (exists_registerAll_eq_error_iff hMode hFits').mpr
        (mt hConsistent.mp hRefused) with
      ⟨key', hConflict'⟩
    exact ⟨key, key', hConflict, hConflict'⟩

/- A table in strict mode for one tape. -/
def strictOne : Table :=
  (ofSymbols 1 ['a', 'b']).setMode .strict

/- A rule for one tape that keeps the symbol and moves on. -/
def passing
    (c : Symbol)
    (nextState : State) : Rule :=
  { state := "p"
    read := [c]
    nextState := nextState
    write := [c]
    moves := [.right] }

/- Such a rule fits the table. -/
theorem fits_passing
    (c : Symbol)
    (nextState : State) :
    (passing c nextState).Fits strictOne.tapes :=
  ⟨rfl, rfl, rfl⟩

/-
  Two rules that overlap without a conflict, and three that end
  with one at a key that depends on their order.
-/
theorem strict_registration_of_passing :
    (∃ last last',
      strictOne.registerAll
            [passing Symbol.wildcard "q", passing 'a' "q"] =
          .ok (last, [3, 1]) ∧
        strictOne.registerAll
            [passing 'a' "q", passing Symbol.wildcard "q"] =
          .ok (last', [1, 3]) ∧
        (∀ state symbols,
          last'.lookup state symbols =
            last.lookup state symbols) ∧
        last'.size = last.size ∧
        last.size = 3) ∧
      strictOne.registerAll
          [passing Symbol.wildcard "q", passing 'b' "p",
            passing 'a' "p"] =
        .error (.conflictingRule ⟨"p", ['b']⟩) ∧
      ∃ key,
        strictOne.registerAll
            [passing 'a' "p", passing Symbol.wildcard "q",
              passing 'b' "p"] =
          .error (.conflictingRule key) := by
  have hFits :
      ∀ rules : List (Symbol × State),
        ∀ r ∈ rules.map fun p => passing p.1 p.2,
          r.Fits strictOne.tapes := by
    intro rules r hMem
    rcases List.mem_map.mp hMem with ⟨p, _hp, rfl⟩
    exact fits_passing p.1 p.2
  have hAgree :=
    strict_registration_ignores_order (t := strictOne) rfl
      (hFits [(Symbol.wildcard, "q"), ('a', "q")])
      (List.Perm.swap _ _ [])
  have hClash :=
    strict_registration_ignores_order (t := strictOne) rfl
      (hFits
        [(Symbol.wildcard, "q"), ('b', "p"), ('a', "p")])
      (@List.perm_append_comm _ [_, _] [_])
  refine ⟨⟨_, _, rfl, rfl, ?_⟩, rfl, ?_⟩
  · rcases hAgree.2.2.1 _ _ _ _ rfl rfl with
      ⟨hLookup, hSize, _hCounts⟩
    exact ⟨hLookup, hSize, by decide⟩
  · have hRefused :
        ¬ ∃ p,
          strictOne.registerAll
            [passing Symbol.wildcard "q", passing 'b' "p",
              passing 'a' "p"] = .ok p := by
      rintro ⟨p, hOk⟩
      cases hOk
    rcases hClash.2.2.2 hRefused with
      ⟨_key, key', _hFirst, hSecond⟩
    exact ⟨key', hSecond⟩

end Table

end MultiTape
