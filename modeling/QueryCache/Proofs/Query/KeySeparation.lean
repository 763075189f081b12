import QueryCache.Proofs.Query.Key

/-!
# Which queries share a key

The key of a query is one list: the id of the statement, the window, the text,
the values of the parameters and, in a session that has one, the environment.
Nothing marks where the values end, so the environment of one session can stand
where another session, which has none, has the last value of a query.

1. the key as a list
2. the one confusion that is left
3. what the keys of two queries tell

`key_eq_iff` says exactly when the keys of two queries are equal.
-/

namespace QueryCache

variable {ρ : Type}

/-! ## The key as a list -/

/-- Two queries run statements of one id and text, for one window. -/
structure SameQuery (st st' : Statement ρ) (b b' : BoundStatement) (w w' : RowBounds) : Prop where
  id : st.id = st'.id
  offset : w.offset = w'.offset
  limit : w.limit = w'.limit
  sql : b.sql = b'.sql

/-- The values that a session folds into a key: those of the parameters, then the environment. -/
def Session.keyValues (s : Session) (b : BoundStatement) : List KeyComponent :=
  b.keyValues ++ s.environment.toList.map .text

theorem Session.keyComponents_eq_iff {s s' : Session} {st st' : Statement ρ}
    {b b' : BoundStatement} {w w' : RowBounds} (hw : w.Fits) (hw' : w'.Fits) :
    s.keyComponents st b w = s'.keyComponents st' b' w' ↔
      SameQuery st st' b b' w w' ∧ s.keyValues b = s'.keyValues b' := by
  have hsplit : s.keyComponents st b w = s'.keyComponents st' b' w' ↔
      st.id = st'.id ∧ UInt64.ofNat w.offset = UInt64.ofNat w'.offset ∧
        UInt64.ofNat w.limit = UInt64.ofNat w'.limit ∧ b.sql = b'.sql ∧
        s.keyValues b = s'.keyValues b' := by
    simp only [keyComponents, keyValues, List.cons_append, List.nil_append, List.cons.injEq,
      KeyComponent.text.injEq, KeyComponent.uint.injEq]
  rw [hsplit]
  constructor
  · rintro ⟨hid, hoffset, hlimit, hsql, hvalues⟩
    have hwindow := hw.eq hw' hoffset hlimit
    exact ⟨⟨hid, congrArg _ hwindow, congrArg _ hwindow, hsql⟩, hvalues⟩
  · rintro ⟨⟨hid, hoffset, hlimit, hsql⟩, hvalues⟩
    exact ⟨hid, congrArg _ hoffset, congrArg _ hlimit, hsql, hvalues⟩

/-! ## The one confusion that is left -/

/-- The environment of the first session stands where the second one, which has no
environment, has one value more. -/
def EnvironmentAsValue (s : Session) (b : BoundStatement) (s' : Session) (b' : BoundStatement) :
    Prop :=
  ∃ e, s.environment = some e ∧ s'.environment = none ∧ b'.keyValues = b.keyValues ++ [.text e]

theorem Session.keyValues_eq_iff {s s' : Session} {b b' : BoundStatement} :
    s.keyValues b = s'.keyValues b' ↔
      (b.keyValues = b'.keyValues ∧ s.environment = s'.environment) ∨
        EnvironmentAsValue s b s' b' ∨ EnvironmentAsValue s' b' s b := by
  unfold keyValues EnvironmentAsValue
  -- Two environments come last in both lists; one environment faces a value, or nothing.
  rcases s.environment with _ | e <;> rcases s'.environment with _ | e'
  · simp
  · simp
  · simp [eq_comm]
  · simp only [Option.toList_some, List.map_cons, List.map_nil, Option.some.injEq, reduceCtorEq,
      false_and, and_false, exists_false, or_false]
    constructor
    · intro h
      rcases List.append_inj' h rfl with ⟨hvalues, htext⟩
      exact ⟨hvalues, by simpa using htext⟩
    · rintro ⟨hvalues, rfl⟩
      rw [hvalues]

/-- A value more makes another number of values. -/
theorem EnvironmentAsValue.not_alike {s s' : Session} {b b' : BoundStatement}
    (h : EnvironmentAsValue s b s' b') :
    s.environment.isSome ≠ s'.environment.isSome ∧
      b'.keyValues.length = b.keyValues.length + 1 := by
  rcases h with ⟨e, hs, hs', hvalues⟩
  rw [hs, hs', hvalues, List.length_append]
  exact ⟨Bool.noConfusion, rfl⟩

/-! ## What the keys of two queries tell -/

/-- Queries have one key exactly if nothing that goes into it differs. -/
def KeysSeparate (ρ : Type) : Prop :=
  ∀ (s s' : Session) (st st' : Statement ρ) (b b' : BoundStatement) (w w' : RowBounds),
    s.closed = false → s'.closed = false → w.Fits → w'.Fits →
    (s.key st b w = s'.key st' b' w' ↔ SameQuery st st' b b' w w' ∧
      b.keyValues = b'.keyValues ∧ s.environment = s'.environment)

/-- A select that is run with values or without. -/
def sampleFind : Statement Unit := { id := "find", kind := .select, sql := "select" }

/-- A session with an environment. -/
def sampleProduction : Session := { environment := some "prod" }

/-- The window of a query that states none. -/
theorem RowBounds.fits_default : ({} : RowBounds).Fits := ⟨by decide, by decide⟩

/-- The environment `"prod"` of a query without values makes the same key as the
value `"prod"` of a query without environment. -/
theorem not_keysSeparate : ¬ KeysSeparate Unit := by
  intro h
  have hkey := h sampleProduction {} sampleFind sampleFind ⟨"select", []⟩
    ⟨"select", [⟨"name", .input, .text "prod"⟩]⟩ {} {} rfl rfl RowBounds.fits_default
    RowBounds.fits_default
  have henv := (hkey.1 rfl).2.2
  exact absurd henv (by decide)

/-- Open sessions make the keys of all queries, and two keys are equal exactly if
statement id, window and text agree and either the values and the environments
agree too, or one session has an environment and the other, which has none, has
that name as its one further value.  So the keys of sessions that both have an
environment, or both have none, and the keys of queries with equally many values,
differ as soon as anything differs. -/
theorem key_eq_iff {s s' : Session} (hs : s.closed = false) (hs' : s'.closed = false)
    (st st' : Statement ρ) (b b' : BoundStatement) {w w' : RowBounds} (hw : w.Fits)
    (hw' : w'.Fits) :
    ∃ k k', s.key st b w = .ok k ∧ s'.key st' b' w' = .ok k' ∧
      (k = k' ↔ SameQuery st st' b b' w w' ∧
        ((b.keyValues = b'.keyValues ∧ s.environment = s'.environment) ∨
          EnvironmentAsValue s b s' b' ∨ EnvironmentAsValue s' b' s b)) ∧
      ((s.environment.isSome = s'.environment.isSome ∨
          b.keyValues.length = b'.keyValues.length) →
        (k = k' ↔ SameQuery st st' b b' w w' ∧
          b.keyValues = b'.keyValues ∧ s.environment = s'.environment)) := by
  refine ⟨_, _, Session.key_eq_ok hs st b w, Session.key_eq_ok hs' st' b' w', ?_⟩
  rw [Session.queryKey, Session.queryKey, CacheKey.ofComponents_injective.eq_iff,
    Session.keyComponents_eq_iff hw hw', Session.keyValues_eq_iff]
  refine ⟨Iff.rfl, fun halike => and_congr_right fun _ => or_iff_left ?_⟩
  rintro (hswap | hswap)
  · rcases hswap.not_alike with ⟨henv, hlength⟩
    rcases halike with h | h
    · exact henv h
    · omega
  · rcases hswap.not_alike with ⟨henv, hlength⟩
    rcases halike with h | h
    · exact henv h.symm
    · omega

/-- One query has two keys in two sessions if one of them has an environment. -/
theorem key_eq_iff_production :
    ∃ k k', sampleProduction.key sampleFind ⟨"select", []⟩ {} = .ok k ∧
      ({} : Session).key sampleFind ⟨"select", []⟩ {} = .ok k' ∧ k ≠ k' := by
  have hproduction : sampleProduction.closed = false := rfl
  have hplain : ({} : Session).closed = false := rfl
  obtain ⟨k, k', hk, hk', -, hiff⟩ := key_eq_iff hproduction hplain sampleFind sampleFind
    ⟨"select", []⟩ ⟨"select", []⟩ RowBounds.fits_default RowBounds.fits_default
  refine ⟨k, k', hk, hk', fun hequal => ?_⟩
  exact absurd ((hiff (.inr rfl)).1 hequal).2.2 (by decide)

end QueryCache
