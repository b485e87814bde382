import MultiTape.Proofs.Table.Registration
import Mathlib.Data.List.Forall2

/-
  This file reads rules with wildcards as they were written,
  without expanding them. Among the rules that were registered,
  the last one that answers to a state and the symbols under
  the heads gives the action. A table in which every rule was
  expanded at its registration answers in the same way.

  Key definitions include:
    * `Reads`
    * `Alphabet.greatest`
    * `RegisteredRule`
    * `RegisteredRule.Answers`
    * `RegisteredRule.answer?`
    * `RegisteredRule.interpret`
    * `Table.accepted`

  Main statements:
    * `RegisteredRule.answer?_eq_some_iff`
    * `Table.lookup_editAll_eq_interpret`
-/

namespace MultiTape

------------------------------------------------------------
-- Wildcards In Patterns
------------------------------------------------------------

/-
  The symbols agree with the pattern when one symbol stands
  for all of its wildcards.
-/
def Reads
    (c : Symbol)
    (pattern symbols : List Symbol) : Prop :=
  List.Forall₂
    (fun p s => (if p = Symbol.wildcard then c else p) = s)
    pattern symbols

instance
    (c : Symbol)
    (pattern symbols : List Symbol) :
    Decidable (Reads c pattern symbols) :=
  inferInstanceAs (Decidable (List.Forall₂ _ _ _))

/- Filling a pattern gives the only symbols that agree with it. -/
theorem reads_iff_fill_eq
    {c : Symbol}
    {pattern symbols : List Symbol} :
    Reads c pattern symbols ↔
      Rule.fill c pattern = symbols := by
  unfold Reads Rule.fill
  rw [← List.forall₂_eq_eq_eq, List.forall₂_map_left_iff]

/- A wildcard shows with which symbol it was filled. -/
theorem fill_injective_of_wildcard_mem
    {c d : Symbol}
    {pattern : List Symbol}
    (hWildcard : Symbol.wildcard ∈ pattern)
    (hFill : Rule.fill c pattern = Rule.fill d pattern) :
    c = d := by
  have hAt := List.map_inj_left.mp hFill _ hWildcard
  simpa using hAt

namespace Alphabet

/- The last symbol of an alphabet. -/
def greatest
    (a : Alphabet) : Symbol :=
  a.symbols.getLast (List.ne_nil_of_mem a.blank_mem)

/- The symbols are those before the greatest, and it. -/
theorem symbols_eq_dropLast_append_greatest
    (a : Alphabet) :
    a.symbols = a.symbols.dropLast ++ [a.greatest] :=
  (List.dropLast_concat_getLast _).symm

/- The greatest symbol is the upper bound in the alphabet. -/
theorem eq_greatest_iff
    {a : Alphabet}
    {c : Symbol} :
    c = a.greatest ↔ c ∈ a ∧ ∀ d ∈ a, d ≤ c := by
  have hMem : a.greatest ∈ a := List.getLast_mem _
  have hBound : ∀ d ∈ a, d ≤ a.greatest := by
    intro d hd
    have hAscending := a.ascending
    rw [mem_def, symbols_eq_dropLast_append_greatest] at hd
    rw [symbols_eq_dropLast_append_greatest] at hAscending
    rcases List.mem_append.mp hd with hBefore | hLast
    · have hLess :=
        (List.pairwise_append.mp hAscending).2.2
          d hBefore a.greatest (List.mem_singleton.mpr rfl)
      exact Char.not_lt.mp (Char.lt_asymm hLess)
    · have hEq := List.mem_singleton.mp hLast
      subst hEq
      exact Char.le_refl a.greatest
  constructor
  · intro hEq
    subst hEq
    exact ⟨hMem, hBound⟩
  · intro hGreatest
    exact
      Char.le_antisymm (hBound c hGreatest.1)
        (hGreatest.2 a.greatest hMem)

end Alphabet

------------------------------------------------------------
-- Rules As They Were Registered
------------------------------------------------------------

/- A rule with the alphabet at the time of its registration. -/
structure RegisteredRule where
  rule : Rule
  alphabet : Alphabet
  deriving DecidableEq

/- The action of a rule when a symbol stands for its wildcards. -/
def Rule.actionWith
    (r : Rule)
    (c : Symbol) : Action :=
  ⟨r.nextState, Rule.fill c r.write, r.moves⟩

namespace RegisteredRule

/-
  The rule answers to the symbols with the action. A wildcard
  that is read stands for one symbol of the alphabet on all
  tapes, and is written as that symbol. A wildcard that is only
  written is the greatest symbol of the alphabet.
-/
inductive Answers
    (g : RegisteredRule)
    (symbols : List Symbol) : Action → Prop where
  | plain
      (hPlain : ¬ g.rule.HasWildcard)
      (hRead : g.rule.read = symbols) :
      Answers g symbols g.rule.action
  | matched
      (c : Symbol)
      (hWildcard : Symbol.wildcard ∈ g.rule.read)
      (hMem : c ∈ g.alphabet)
      (hReads : Reads c g.rule.read symbols) :
      Answers g symbols (g.rule.actionWith c)
  | written
      (c : Symbol)
      (hRead : Symbol.wildcard ∉ g.rule.read)
      (hWrite : Symbol.wildcard ∈ g.rule.write)
      (hEq : g.rule.read = symbols)
      (hMem : c ∈ g.alphabet)
      (hGreatest : ∀ d ∈ g.alphabet, d ≤ c) :
      Answers g symbols (g.rule.actionWith c)

/- The action with which a rule answers to the symbols. -/
def answer?
    (g : RegisteredRule)
    (symbols : List Symbol) : Option Action :=
  if Symbol.wildcard ∈ g.rule.read then
    (g.alphabet.symbols.find? fun c =>
      decide (Reads c g.rule.read symbols)).map
        g.rule.actionWith
  else if g.rule.read = symbols then
    if Symbol.wildcard ∈ g.rule.write then
      some (g.rule.actionWith g.alphabet.greatest)
    else
      some g.rule.action
  else
    none

/- The action of the last rule that answers. -/
def interpret
    (rules : List RegisteredRule)
    (state : State)
    (symbols : List Symbol) : Option Action :=
  rules.reverse.findSome? fun g =>
    if g.rule.state = state then g.answer? symbols else none

/- The function gives the answers that the relation allows. -/
theorem answer?_eq_some_iff
    {g : RegisteredRule}
    {symbols : List Symbol}
    {a : Action} :
    g.answer? symbols = some a ↔ g.Answers symbols a := by
  constructor
  · intro hSome
    unfold answer? at hSome
    split at hSome
    · next hWildcard =>
        rcases Option.map_eq_some_iff.mp hSome with
          ⟨c, hFind, rfl⟩
        have hReads := List.find?_some hFind
        exact
          .matched c hWildcard
            (List.mem_of_find?_eq_some hFind)
            (of_decide_eq_true hReads)
    · next hRead =>
        split at hSome
        · next hEq =>
            split at hSome
            · next hWrite =>
                rcases Option.some.inj hSome with rfl
                have hGreatest :=
                  Alphabet.eq_greatest_iff.mp
                    (Eq.refl g.alphabet.greatest)
                exact
                  .written _ hRead hWrite hEq
                    hGreatest.1 hGreatest.2
            · next hWrite =>
                rcases Option.some.inj hSome with rfl
                exact
                  .plain (fun h => h.elim hRead hWrite) hEq
        · cases hSome
  · intro hAnswers
    unfold answer?
    cases hAnswers with
    | plain hPlain hRead =>
        have hNotRead : Symbol.wildcard ∉ g.rule.read :=
          fun h => hPlain (Or.inl h)
        have hNotWrite : Symbol.wildcard ∉ g.rule.write :=
          fun h => hPlain (Or.inr h)
        rw [if_neg hNotRead, if_pos hRead,
          if_neg hNotWrite]
    | matched c hWildcard hMem hReads =>
        rw [if_pos hWildcard]
        cases hFind :
            g.alphabet.symbols.find? fun c =>
              decide (Reads c g.rule.read symbols) with
        | none =>
            have hNot :=
              List.find?_eq_none.mp hFind c hMem
            exact absurd (decide_eq_true hReads) hNot
        | some d =>
            have hFound := List.find?_some hFind
            have hOther : Reads d g.rule.read symbols :=
              of_decide_eq_true hFound
            have hEq : d = c := by
              apply fill_injective_of_wildcard_mem hWildcard
              rw [reads_iff_fill_eq.mp hOther,
                reads_iff_fill_eq.mp hReads]
            rw [hEq]
            rfl
    | written c hRead hWrite hEq hMem hGreatest =>
        rw [if_neg hRead, if_pos hEq, if_pos hWrite,
          Alphabet.eq_greatest_iff.mpr ⟨hMem, hGreatest⟩]

/- Later rules answer before earlier ones. -/
theorem interpret_append
    (earlier later : List RegisteredRule)
    (state : State)
    (symbols : List Symbol) :
    interpret (earlier ++ later) state symbols =
      (interpret later state symbols).or
        (interpret earlier state symbols) := by
  unfold interpret
  rw [List.reverse_append, List.findSome?_append]

/-
  An action comes from the last rule for the state that answers
  to the symbols.
-/
theorem interpret_eq_some_iff
    {rules : List RegisteredRule}
    {state : State}
    {symbols : List Symbol}
    {a : Action} :
    interpret rules state symbols = some a ↔
      ∃ before g after,
        rules = before ++ g :: after ∧
          g.rule.state = state ∧
          g.Answers symbols a ∧
          ∀ later ∈ after, later.rule.state = state →
            ∀ b, ¬ later.Answers symbols b := by
  unfold interpret
  rw [List.findSome?_eq_some_iff]
  constructor
  · intro hParts
    rcases hParts with
      ⟨after, g, before, hRules, hAnswer, hAfter⟩
    rw [List.reverse_eq_iff] at hRules
    split at hAnswer
    · next hState =>
        refine
          ⟨before.reverse, g, after.reverse, ?_, hState,
            answer?_eq_some_iff.mp hAnswer, ?_⟩
        · simpa using hRules
        · intro later hLater hLaterState b hAnswers
          have hNone :=
            hAfter later (List.mem_reverse.mp hLater)
          rw [if_pos hLaterState,
            answer?_eq_some_iff.mpr hAnswers] at hNone
          cases hNone
    · cases hAnswer
  · intro hParts
    rcases hParts with
      ⟨before, g, after, rfl, hState, hAnswers, hAfter⟩
    refine
      ⟨after.reverse, g, before.reverse, by simp, ?_, ?_⟩
    · rw [if_pos hState]
      exact answer?_eq_some_iff.mpr hAnswers
    · intro later hLater
      split
      · next hLaterState =>
          rw [Option.eq_none_iff_forall_ne_some]
          intro b hSome
          exact
            hAfter later (List.mem_reverse.mp hLater)
              hLaterState b (answer?_eq_some_iff.mp hSome)
      · rfl

end RegisteredRule

namespace Table

------------------------------------------------------------
-- Expansions
------------------------------------------------------------

/-
  If all rules that answer to a key have the same action, then
  the last of them has it.
-/
theorem lastAction?_eq_some_of_forall
    {k : Key}
    {rules : List Rule}
    {a : Action}
    (hExists : ∃ r ∈ rules, r.key = k)
    (hAll : ∀ r ∈ rules, r.key = k → r.action = a) :
    lastAction? k rules = some a := by
  cases hLast : lastAction? k rules with
  | none =>
      rcases hExists with ⟨r, hMem, hKey⟩
      have hNone :=
        List.findSome?_eq_none_iff.mp hLast r
          (List.mem_reverse.mpr hMem)
      simp [hKey] at hNone
  | some b =>
      rcases exists_of_lastAction?_eq_some hLast with
        ⟨r, hMem, hKey, rfl⟩
      rw [hAll r hMem hKey]

/- A rule without wildcards is its own expansion. -/
theorem expand_of_not_hasWildcard
    {t : Table}
    {r : Rule}
    (hPlain : ¬ r.HasWildcard) :
    t.expand r = [r] :=
  if_neg hPlain

/- A rule with wildcards has an expansion for every symbol. -/
theorem expand_of_hasWildcard
    {t : Table}
    {r : Rule}
    (hWildcard : r.HasWildcard) :
    t.expand r = t.alphabet.symbols.map r.substitute :=
  if_pos hWildcard

/- The key of an expansion. -/
theorem key_substitute_eq_iff
    {r : Rule}
    {c : Symbol}
    {state : State}
    {symbols : List Symbol} :
    (r.substitute c).key = ⟨state, symbols⟩ ↔
      r.state = state ∧ Rule.fill c r.read = symbols := by
  unfold Rule.key Rule.substitute
  exact Key.mk.injEq _ _ _ _ ▸ Iff.rfl

/- Without a rule that answers to a key there is no action. -/
theorem lastAction?_eq_none_of_forall
    {k : Key}
    {rules : List Rule}
    (hNone : ∀ r ∈ rules, r.key ≠ k) :
    lastAction? k rules = none := by
  cases hLast : lastAction? k rules with
  | none => rfl
  | some a =>
      rcases exists_of_lastAction?_eq_some hLast with
        ⟨r, hMem, hKey, _hAction⟩
      exact absurd hKey (hNone r hMem)

/- All expansions are for the state of the rule. -/
theorem state_of_mem_expand
    {t : Table}
    {r rule : Rule}
    (hMem : rule ∈ t.expand r) :
    rule.state = r.state := by
  rcases mem_expand_cases hMem with
    ⟨_hPlain, rfl⟩ | ⟨c, _hSymbol, rfl⟩
  · rfl
  · rfl

private theorem lastAction?_expand_matched
    {t : Table}
    {r : Rule}
    {symbols : List Symbol}
    (hWildcard : Symbol.wildcard ∈ r.read) :
    lastAction? ⟨r.state, symbols⟩ (t.expand r) =
      RegisteredRule.answer? ⟨r, t.alphabet⟩ symbols := by
  rw [expand_of_hasWildcard (Or.inl hWildcard)]
  apply Option.ext
  intro a
  rw [RegisteredRule.answer?_eq_some_iff]
  constructor
  · intro hLast
    rcases exists_of_lastAction?_eq_some hLast with
      ⟨rule, hMem, hKey, rfl⟩
    rcases List.mem_map.mp hMem with ⟨c, hc, rfl⟩
    have hFill := (key_substitute_eq_iff.mp hKey).2
    exact
      .matched c hWildcard hc
        (reads_iff_fill_eq.mpr hFill)
  · intro hAnswers
    cases hAnswers with
    | plain hPlain _hRead =>
        exact absurd (Or.inl hWildcard) hPlain
    | written _c hRead _hWrite _hEq _hMem _hGreatest =>
        exact absurd hWildcard hRead
    | matched c _hWildcard hMem hReads =>
        have hFill := reads_iff_fill_eq.mp hReads
        apply lastAction?_eq_some_of_forall
        · exact
            ⟨r.substitute c, List.mem_map_of_mem hMem,
              key_substitute_eq_iff.mpr ⟨rfl, hFill⟩⟩
        · intro rule hRule hKey
          rcases List.mem_map.mp hRule with ⟨d, _hd, rfl⟩
          have hEq : d = c :=
            fill_injective_of_wildcard_mem hWildcard
              ((key_substitute_eq_iff.mp hKey).2.trans
                hFill.symm)
          rw [hEq]
          rfl

private theorem lastAction?_expand_written
    {t : Table}
    {r : Rule}
    {symbols : List Symbol}
    (hRead : Symbol.wildcard ∉ r.read)
    (hWrite : Symbol.wildcard ∈ r.write) :
    lastAction? ⟨r.state, symbols⟩ (t.expand r) =
      RegisteredRule.answer? ⟨r, t.alphabet⟩ symbols := by
  have hKey :
      ∀ c,
        (r.substitute c).key = ⟨r.state, symbols⟩ ↔
          r.read = symbols := by
    intro c
    rw [key_substitute_eq_iff, Rule.fill_of_not_mem hRead]
    exact and_iff_right rfl
  rw [expand_of_hasWildcard (Or.inr hWrite),
    RegisteredRule.answer?, if_neg hRead]
  by_cases hEq : r.read = symbols
  · -- All expansions have this key, so the last one stays.
    have hGreatest := (hKey t.alphabet.greatest).mpr hEq
    rw [if_pos hEq, if_pos hWrite,
      t.alphabet.symbols_eq_dropLast_append_greatest]
    simp only [lastAction?, List.map_append, List.map_cons,
      List.map_nil, List.reverse_append,
      List.reverse_singleton, List.singleton_append,
      List.findSome?_cons, if_pos hGreatest]
    rfl
  · rw [if_neg hEq]
    apply lastAction?_eq_none_of_forall
    intro rule hRule hRuleKey
    rcases List.mem_map.mp hRule with ⟨c, _hc, rfl⟩
    exact hEq ((hKey c).mp hRuleKey)

/-
  Of the expansions of a rule, the one that is bound last to a
  key has the action with which the rule answers to it.
-/
theorem lastAction?_expand
    (t : Table)
    (r : Rule)
    (state : State)
    (symbols : List Symbol) :
    lastAction? ⟨state, symbols⟩ (t.expand r) =
      if r.state = state then
        RegisteredRule.answer? ⟨r, t.alphabet⟩ symbols
      else
        none := by
  by_cases hState : r.state = state
  · subst hState
    rw [if_pos rfl]
    by_cases hRead : Symbol.wildcard ∈ r.read
    · exact lastAction?_expand_matched hRead
    · by_cases hWrite : Symbol.wildcard ∈ r.write
      · exact lastAction?_expand_written hRead hWrite
      · have hPlain : ¬ r.HasWildcard :=
          fun h => h.elim hRead hWrite
        simp [expand_of_not_hasWildcard hPlain, lastAction?,
          Rule.key, RegisteredRule.answer?, hRead, hWrite]
  · rw [if_neg hState]
    apply lastAction?_eq_none_of_forall
    intro rule hRule hKey
    apply hState
    rw [← state_of_mem_expand hRule]
    exact congrArg Key.state hKey

------------------------------------------------------------
-- Histories
------------------------------------------------------------

/- The rule that an edit registers, with the alphabet in force. -/
def acceptedBy
    (t : Table) : Edit → List RegisteredRule
  | .register r =>
      match t.register r with
      | .ok _ => [⟨r, t.alphabet⟩]
      | .error _ => []
  | .extendAlphabet _ => []
  | .setMode _ => []

/- The rules that edits register, in order. -/
def accepted : Table → List Edit → List RegisteredRule
  | _, [] => []
  | t, e :: edits =>
      t.acceptedBy e ++ (t.edit e).accepted edits

/- What a table answers after one edit. -/
theorem lookup_edit
    (t : Table)
    (e : Edit)
    (state : State)
    (symbols : List Symbol) :
    (t.edit e).lookup state symbols =
      (RegisteredRule.interpret (t.acceptedBy e)
        state symbols).or
        (t.lookup state symbols) := by
  cases e with
  | register r =>
      cases hRegister : t.register r with
      | error e =>
          rw [edit_of_register_eq_error hRegister]
          simp [acceptedBy, hRegister,
            RegisteredRule.interpret]
      | ok p =>
          rw [edit_of_register_eq_ok hRegister,
            lookup_of_register_eq_ok hRegister,
            lastAction?_expand]
          simp [acceptedBy, hRegister,
            RegisteredRule.interpret]
  | extendAlphabet symbols => rfl
  | setMode mode => rfl

/- What a table answers after edits in order. -/
theorem lookup_editAll
    (t : Table)
    (edits : List Edit)
    (state : State)
    (symbols : List Symbol) :
    (t.editAll edits).lookup state symbols =
      (RegisteredRule.interpret (t.accepted edits)
        state symbols).or
        (t.lookup state symbols) := by
  induction edits generalizing t with
  | nil => rfl
  | cons e edits ih =>
      have hFirst :
          t.editAll (e :: edits) =
            (t.edit e).editAll edits :=
        rfl
      rw [hFirst, ih, lookup_edit, accepted,
        RegisteredRule.interpret_append, Option.or_assoc]

------------------------------------------------------------
-- Wildcards That Are Only Written
------------------------------------------------------------

/- A single rule conflicts exactly with another action of its key. -/
theorem conflict?_singleton_eq_none_iff
    {b : Bindings}
    {r : Rule} :
    conflict? b [r] = none ↔
      ∀ a, b.find? r.key = some a → a = r.action := by
  unfold conflict?
  split
  · next hOverwrites =>
      rcases hOverwrites with ⟨a, hFind, hNe⟩
      constructor
      · intro hNone
        cases hNone
      · intro hSame
        exact absurd (hSame a hFind) hNe
  · next hFree =>
      constructor
      · intro _hNone a hFind
        by_contra hNe
        exact hFree ⟨a, hFind, hNe⟩
      · intro _hSame
        rfl

/- Two rules with one key and different actions conflict. -/
theorem conflict?_cons_cons_ne_none
    {b : Bindings}
    {first second : Rule}
    (rules : List Rule)
    (hKey : first.key = second.key)
    (hAction : first.action ≠ second.action) :
    conflict? b (first :: second :: rules) ≠ none := by
  unfold conflict?
  split
  · simp
  · have hOverwrites :
        Overwrites second
          (b.insert first.key first.action) := by
      refine ⟨first.action, ?_, hAction⟩
      rw [Bindings.find?_insert, if_pos hKey]
      rfl
    rw [conflict?, if_pos hOverwrites]
    simp

/-
  In strict mode a wildcard that is only written has to stand
  for one symbol, since all expansions have the same key.
-/
theorem conflict?_expand_written_eq_none_iff
    {t : Table}
    {r : Rule}
    (hRead : Symbol.wildcard ∉ r.read)
    (hWrite : Symbol.wildcard ∈ r.write) :
    conflict? t.bindings (t.expand r) = none ↔
      t.alphabet.symbols = [Symbol.blank] ∧
        ∀ a, t.lookup r.state r.read = some a →
          a = r.actionWith Symbol.blank := by
  rw [expand_of_hasWildcard (Or.inr hWrite)]
  cases hSymbols : t.alphabet.symbols with
  | nil =>
      exact
        absurd hSymbols
          (List.ne_nil_of_mem t.alphabet.blank_mem)
  | cons c rest =>
      cases rest with
      | nil =>
          have hBlank : c = Symbol.blank := by
            have hMem := t.alphabet.blank_mem
            rw [hSymbols, List.mem_singleton] at hMem
            exact hMem.symm
          have hKey :
              (r.substitute Symbol.blank).key =
                ⟨r.state, r.read⟩ :=
            key_substitute_eq_iff.mpr
              ⟨rfl, Rule.fill_of_not_mem hRead⟩
          subst hBlank
          rw [List.map_singleton,
            conflict?_singleton_eq_none_iff, hKey]
          exact (and_iff_right rfl).symm
      | cons d rest =>
          have hNe : c ≠ d := by
            have hAscending := t.alphabet.ascending
            rw [hSymbols] at hAscending
            exact
              Char.ne_of_lt
                (List.rel_of_pairwise_cons hAscending
                  List.mem_cons_self)
          have hAction :
              (r.substitute c).action ≠
                (r.substitute d).action := by
            intro hEq
            exact
              hNe
                (fill_injective_of_wildcard_mem hWrite
                  (congrArg Action.write hEq))
          have hKey :
              (r.substitute c).key =
                (r.substitute d).key := by
            apply key_substitute_eq_iff.mpr
            rw [Rule.fill_of_not_mem hRead]
            exact ⟨rfl, (Rule.fill_of_not_mem hRead).symm⟩
          constructor
          · intro hNone
            exact
              absurd hNone
                (conflict?_cons_cons_ne_none _ hKey hAction)
          · intro hOne
            cases hOne.1

------------------------------------------------------------
-- Expansion And Interpretation
------------------------------------------------------------

/-
  A table of expanded rules answers as the rules do when they
  are read as they were written, the last one first. In strict
  mode a wildcard that is only written is accepted only where
  it stands for nothing but the blank.
-/
theorem lookup_editAll_eq_interpret
    (tapes : Nat)
    (symbols : List Symbol)
    (edits : List Edit) :
    (∀ state read,
      ((ofSymbols tapes symbols).editAll edits).lookup
          state read =
        RegisteredRule.interpret
          ((ofSymbols tapes symbols).accepted edits)
          state read) ∧
      (∀ state read a,
        RegisteredRule.interpret
            ((ofSymbols tapes symbols).accepted edits)
            state read = some a ↔
          ∃ before g after,
            (ofSymbols tapes symbols).accepted edits =
                before ++ g :: after ∧
              g.rule.state = state ∧
              g.Answers read a ∧
              ∀ later ∈ after, later.rule.state = state →
                ∀ b, ¬ later.Answers read b) ∧
      ∀ r : Rule,
        ((ofSymbols tapes symbols).editAll edits).mode =
            .strict →
          Symbol.wildcard ∉ r.read →
          Symbol.wildcard ∈ r.write →
          ((∃ p,
            ((ofSymbols tapes symbols).editAll
              edits).register r = .ok p) ↔
            r.Fits tapes ∧
              ((ofSymbols tapes symbols).editAll
                edits).alphabet.symbols = [Symbol.blank] ∧
              ∀ a,
                ((ofSymbols tapes symbols).editAll
                    edits).lookup r.state r.read = some a →
                  a = r.actionWith Symbol.blank) := by
  refine ⟨?_, ?_, ?_⟩
  · intro state read
    rw [lookup_editAll]
    exact Option.or_none
  · intro state read a
    exact RegisteredRule.interpret_eq_some_iff
  · intro r hMode hRead hWrite
    have hTapes :=
      tapes_editAll (ofSymbols tapes symbols) edits
    rw [exists_register_eq_ok_iff, hTapes,
      ← conflict?_expand_written_eq_none_iff hRead hWrite]
    exact and_congr_right' (imp_iff_right hMode)

end Table

end MultiTape
