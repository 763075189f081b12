import Mathlib
import QueryCache.Entries.Lemmas
import QueryCache.Proofs.Cache.Guarded
import QueryCache.Query.Session

/-!
# What a session remembers

If every result that a runner gives for a key is a good one, then so is every
result that the session remembers or gives for the key.  Whatever forgets the
results of an open session leaves nothing behind, and a closed session has
nothing to forget.

1. sessions that remember good results
2. queries
3. updates and the end of a unit
-/

namespace QueryCache.Session

/-! ## Remembered results -/

/-- The session is open or closed as stated, and what it remembers is good; a
closed session remembers nothing. -/
structure Recalls (good : CacheKey → Value → Prop) (closed : Bool) (s : Session) : Prop where
  closed_eq : s.closed = closed
  results : ∀ k v, s.results.lookup k = some v → closed = false ∧ good k v

namespace Recalls

variable {good : CacheKey → Value → Prop} {closed : Bool} {s : Session}

theorem mono {good' : CacheKey → Value → Prop} (h : Recalls good closed s)
    (hgood : ∀ k v, closed = false → good k v → good' k v) : Recalls good' closed s := by
  refine ⟨h.closed_eq, ?_⟩
  intro k v hv
  rcases h.results k v hv with ⟨hopen, hk⟩
  exact ⟨hopen, hgood k v hopen hk⟩

/-- A session that remembers nothing remembers nothing bad. -/
theorem of_nothing (h : Recalls noneGood closed s) : Recalls good closed s :=
  h.mono fun _ _ _ hk => hk.elim

/-- A closed session remembers nothing bad either. -/
theorem of_closed {good' : CacheKey → Value → Prop} (h : Recalls good closed s)
    (hclosed : closed = true) : Recalls good' closed s := by
  refine h.mono ?_
  intro k v hopen
  rw [hclosed] at hopen
  cases hopen

/-- Only the results and whether the session is closed matter. -/
theorem congr {s' : Session} (h : Recalls good closed s) (hclosed : s'.closed = s.closed)
    (hresults : s'.results = s.results) : Recalls good closed s' := by
  refine ⟨hclosed.trans h.closed_eq, ?_⟩
  rw [hresults]
  exact h.results

/-- Whether it is closed or not, a session that forgets remembers nothing. -/
theorem forget (h : Recalls good closed s) : Recalls noneGood closed s.forget := by
  unfold Session.forget
  cases hc : s.closed with
  | true =>
    have hclosed : closed = true := h.closed_eq.symm.trans hc
    refine ⟨h.closed_eq, ?_⟩
    intro k v hv
    have hopen := (h.results k v hv).1
    rw [hclosed] at hopen
    cases hopen
  | false =>
    have hopen : closed = false := h.closed_eq.symm.trans hc
    rw [if_neg Bool.false_ne_true]
    refine ⟨hopen.symm, ?_⟩
    intro k v heq
    cases heq

/-- An open session remembers one more good result. -/
theorem insert {k : CacheKey} {v : Value} (h : Recalls good closed s) (hopen : closed = false)
    (hv : good k v) : Recalls good closed { s with results := s.results.insert k (some v) } := by
  refine ⟨h.closed_eq, ?_⟩
  intro k' v' hlookup
  have hfound : (if k' = k then some (some v) else s.results.find? k').join = some v' := by
    rw [← Entries.find?_insert]
    exact hlookup
  by_cases hk : k' = k
  · rw [if_pos hk] at hfound
    cases hfound
    rw [hk]
    exact ⟨hopen, hv⟩
  · rw [if_neg hk] at hfound
    exact h.results k' v' hfound

end Recalls

/-! ## Queries -/

variable {ρ σ : Type} {good : CacheKey → Value → Prop} {closed : Bool} {inv : σ → Prop}
  {db : StatementRunner ρ σ} {st : Statement ρ} {b : BoundStatement} {w : RowBounds}

/-- The session remembers good results, and the database is as stated. -/
def Sound (good : CacheKey → Value → Prop) (closed : Bool) (inv : σ → Prop) (s : Session × σ) :
    Prop := Recalls good closed s.1 ∧ inv s.2

/-- Only an open session goes on. -/
theorem ensureOpen_sound : (ensureOpen : SessionOp σ Unit).Hoare (Sound good closed inv)
    fun r s => Sound good closed inv s ∧
      ((∃ e, r = .error e) ∧ closed = true ∨ r = .ok () ∧ closed = false) := by
  refine Op.Hoare.bind_layer ?_
  intro l
  split
  · rename_i hclosed
    refine Op.Hoare.fail ?_
    intro s h
    rcases h with ⟨rfl, hs⟩
    exact ⟨hs, .inl ⟨⟨_, rfl⟩, hs.1.closed_eq.symm.trans hclosed⟩⟩
  · rename_i hopen
    refine Op.Hoare.pure ?_
    intro s h
    rcases h with ⟨rfl, hs⟩
    exact ⟨hs, .inr ⟨rfl, hs.1.closed_eq.symm.trans (Bool.eq_false_iff.2 hopen)⟩⟩

theorem ensureOpen_keeping : (ensureOpen : SessionOp σ Unit).Hoare (Sound good closed inv)
    (Keeping (Sound good closed inv) fun _ => closed = false) := by
  refine ensureOpen_sound.mono (fun _ hs => hs) ?_
  intro r s h
  rcases h with ⟨hs, hr⟩
  refine ⟨hs, ?_⟩
  intro a ha
  rcases hr with ⟨⟨e, he⟩, -⟩ | ⟨-, hopen⟩
  · cases ha.symm.trans he
  · exact hopen

/-- A closed session skips an operation. -/
theorem unlessClosed_sound {m : SessionOp σ Unit} {post : Except Error Unit → Session × σ → Prop}
    (hclosed : closed = true → ∀ s, Sound good closed inv s → post (.ok ()) s)
    (hopen : closed = false → m.Hoare (Sound good closed inv) post) :
    (Op.layer >>= fun s : Session => if s.closed then pure () else m).Hoare
      (Sound good closed inv) post := by
  refine Op.Hoare.bind_layer ?_
  intro l
  split
  · rename_i hl
    refine Op.Hoare.pure ?_
    intro s h
    rcases h with ⟨rfl, hs⟩
    exact hclosed (hs.1.closed_eq.symm.trans hl) s hs
  · rename_i hl
    intro t w h
    rcases h with ⟨rfl, hs⟩
    exact hopen (hs.1.closed_eq.symm.trans (Bool.eq_false_iff.2 hl)) t w hs

theorem clearLocal_sound : (clearLocal : SessionOp σ Unit).Hoare (Sound good closed inv)
    fun r s => r = .ok () ∧ Sound noneGood closed inv s :=
  Op.Hoare.modifyLayer fun _ hs => ⟨rfl, hs.1.forget, hs.2⟩

theorem clearLocalIf_sound (condition : Bool) :
    (clearLocalIf condition : SessionOp σ Unit).Hoare (Sound good closed inv)
      (Keeping (Sound good closed inv) fun _ => True) := by
  unfold clearLocalIf
  cases condition with
  | true =>
    refine clearLocal_sound.mono (fun _ hs => hs) ?_
    intro r s h
    rcases h with ⟨-, hs⟩
    exact ⟨⟨hs.1.of_nothing, hs.2⟩, fun _ _ => trivial⟩
  | false => exact Op.Hoare.pure fun s hs => ⟨hs, fun _ _ => trivial⟩

/-- The session changes what is neither a result nor whether it is closed. -/
theorem modifyLayer_sound {g : Session → Session} (hclosed : ∀ s, (g s).closed = s.closed)
    (hresults : ∀ s, (g s).results = s.results) :
    (Op.modifyLayer g : SessionOp σ Unit).Hoare (Sound good closed inv)
      (Keeping (Sound good closed inv) fun _ => True) := by
  refine Op.Hoare.modifyLayer ?_
  intro s hs
  exact ⟨⟨hs.1.congr (hclosed s.1) (hresults s.1), hs.2⟩, fun _ _ => trivial⟩

theorem queryDatabase_sound {key : CacheKey} (hopen : closed = false)
    (hdb : (db.query st b w).Hoare inv (Keeping inv (good key))) :
    (queryDatabase db st b w key).Hoare (Sound good closed inv)
      (Keeping (Sound good closed inv) (good key)) := by
  refine Op.Hoare.bind_keeping hdb.second_keeping ?_
  intro v hv
  have hremember : (Op.modifyLayer fun s : Session =>
      { s with results := s.results.insert key (some v) } : SessionOp σ Unit).Hoare
      (Sound good closed inv) (Keeping (Sound good closed inv) fun _ => True) := by
    refine Op.Hoare.modifyLayer ?_
    intro s hs
    exact ⟨⟨hs.1.insert hopen hv, hs.2⟩, fun _ _ => trivial⟩
  refine Op.Hoare.bind_keeping hremember ?_
  intro _ _
  refine Op.Hoare.pure ?_
  intro s hs
  refine ⟨hs, ?_⟩
  intro _ h
  cases h
  exact hv

/-- What a session gives for a key is good, remembered or not. -/
theorem queryWithKey_sound {key : CacheKey}
    (hdb : closed = false → (db.query st b w).Hoare inv (Keeping inv (good key))) :
    (queryWithKey db st b w key).Hoare (Sound good closed inv)
      (Keeping (Sound good closed inv) fun v => closed = false ∧ good key v) := by
  refine Op.Hoare.bind_keeping ensureOpen_keeping ?_
  intro _ hopen
  refine Op.Hoare.bind_keeping Op.Hoare.layer_keeping ?_
  intro _ _
  refine Op.Hoare.bind_keeping (clearLocalIf_sound _) ?_
  intro _ _
  refine Op.Hoare.bind_keeping (modifyLayer_sound (fun _ => rfl) fun _ => rfl) ?_
  intro _ _
  have hlookup : (Op.updateLayer fun s : Session => (s.results.lookup key, s) :
      SessionOp σ (Option Value)).Hoare (Sound good closed inv)
      (Keeping (Sound good closed inv) fun found => ∀ v, found = some v → good key v) := by
    refine Op.Hoare.updateLayer ?_
    intro s hs
    refine ⟨hs, ?_⟩
    rintro _ ⟨⟩ v hv
    exact (hs.1.results key v hv).2
  refine Op.Hoare.bind_keeping hlookup ?_
  intro found hfound
  -- From here on the result is at hand, and only the depth and the scope are seen to.
  have hend : ∀ result : Except Error Value, (∀ v, result = .ok v → good key v) →
      (do
        Op.modifyLayer fun s => { s with depth := s.depth - 1 }
        let s ← Op.layer
        clearLocalIf (s.depth == 0 && s.scope == .statement)
        Op.ofExcept result : SessionOp σ Value).Hoare (Sound good closed inv)
        (Keeping (Sound good closed inv) fun v => closed = false ∧ good key v) := by
    intro result hresult
    refine Op.Hoare.bind_keeping (modifyLayer_sound (fun _ => rfl) fun _ => rfl) ?_
    intro _ _
    refine Op.Hoare.bind_keeping Op.Hoare.layer_keeping ?_
    intro _ _
    refine Op.Hoare.bind_keeping (clearLocalIf_sound _) ?_
    intro _ _
    refine Op.Hoare.ofExcept ?_
    intro s hs
    exact ⟨hs, fun v hv => ⟨hopen, hresult v hv⟩⟩
  cases found with
  | some v =>
    -- remembered
    refine hend (.ok v) ?_
    intro _ h
    cases h
    exact hfound v rfl
  | none =>
    -- from the database; an error is handed on after the depth has been set back
    refine Op.Hoare.bind_result (queryDatabase_sound hopen (hdb hopen)) ?_
    intro result t w hw
    exact hend result hw.2 t w hw.1

/-- What is handed on is what the database gives. -/
theorem queryHandled_sound {ok : Value → Prop}
    (hdb : closed = false → (db.query st b w).Hoare inv (Keeping inv ok)) :
    (queryHandled db st b w).Hoare (Sound good closed inv)
      (Keeping (Sound good closed inv) ok) := by
  refine Op.Hoare.bind_keeping ensureOpen_keeping ?_
  intro _ hopen
  refine Op.Hoare.bind_keeping (clearLocalIf_sound _) ?_
  intro _ _
  exact (hdb hopen).second_keeping

theorem queryCursor_sound {ok : Value → Prop}
    (hdb : closed = false → (db.query st b w).Hoare inv (Keeping inv ok)) :
    (queryCursor db st b w).Hoare (Sound good closed inv) (Keeping (Sound good closed inv) ok) := by
  refine Op.Hoare.bind_keeping ensureOpen_keeping ?_
  intro _ hopen
  exact (hdb hopen).second_keeping

/-! ## Updates and the end of a unit -/

/-- The database keeps an invariant at the end of a unit, and can always commit. -/
structure Steady (db : StatementRunner ρ σ) (inv : σ → Prop) : Prop where
  commit : db.commit.Hoare inv fun r x => r = .ok () ∧ inv x
  rollback : db.rollback.Hoare inv fun _ x => inv x
  close : db.close.Hoare inv fun _ x => inv x

/-- A closed session refuses; an open one forgets everything and goes on. -/
theorem forgetting_sound {α : Type} {m : SessionOp σ α} {post : Except Error α → Session × σ → Prop}
    (hclosed : closed = true → ∀ e s, Sound good closed inv s → post (.error e) s)
    (hm : closed = false → m.Hoare (Sound noneGood closed inv) post) :
    (do
      ensureOpen
      clearLocal
      m).Hoare (Sound good closed inv) post := by
  refine Op.Hoare.bind ensureOpen_sound ?_ ?_
  · intro _ t w hpost
    rcases hpost with ⟨hs, ⟨⟨e, he⟩, -⟩ | ⟨-, hopen⟩⟩
    · cases he
    · refine Op.Hoare.bind clearLocal_sound ?_ ?_ t w hs
      · intro _
        exact (hm hopen).mono (fun _ h => h.2) fun _ _ h => h
      · intro e s hpost
        rcases hpost with ⟨he, -⟩
        cases he
  · intro e s hpost
    rcases hpost with ⟨hs, ⟨-, hc⟩ | ⟨he, -⟩⟩
    · exact hclosed hc e s hs
    · cases he

/-- An update of a closed session does nothing; else the session remembers
nothing after it. -/
theorem update_sound {after : Except Error Nat → σ → Prop}
    (hdb : (db.update st b).Hoare inv after) :
    (update db st b).Hoare (Sound good closed inv) fun r s =>
      ((∃ e, r = .error e) ∧ Sound good closed inv s) ∨
        (closed = false ∧ Recalls noneGood closed s.1 ∧ after r s.2) := by
  refine forgetting_sound ?_ ?_
  · intro _ e s hs
    exact .inl ⟨⟨e, rfl⟩, hs⟩
  · intro hopen
    exact hdb.second.mono (fun _ hs => hs) fun r s hs => .inr ⟨hopen, hs⟩

/-- An open session remembers nothing after an update. -/
theorem update_open {after : Except Error Nat → σ → Prop}
    (hdb : (db.update st b).Hoare inv after) :
    (update db st b).Hoare (Sound good false inv) fun r s =>
      Recalls noneGood false s.1 ∧ after r s.2 := by
  refine forgetting_sound ?_ fun _ => hdb.second
  intro hclosed
  cases hclosed

/-- A commit of an open session succeeds, and then it remembers nothing. -/
theorem commit_sound (hdb : Steady db inv) (required : Bool) :
    (commit db required).Hoare (Sound good closed inv) fun r s =>
      Sound noneGood closed inv s ∧ (closed = false → r = .ok ()) := by
  refine forgetting_sound ?_ ?_
  · intro hclosed e s hs
    refine ⟨⟨hs.1.of_closed hclosed, hs.2⟩, ?_⟩
    intro hopen
    cases hclosed.symm.trans hopen
  · intro _
    cases required with
    | true =>
      refine hdb.commit.second.mono (fun _ hs => hs) ?_
      intro r s h
      rcases h with ⟨hs, hr, hx⟩
      exact ⟨⟨hs, hx⟩, fun _ => hr⟩
    | false => exact Op.Hoare.pure fun s hs => ⟨hs, fun _ => rfl⟩

/-- After a rollback the session remembers nothing. -/
theorem rollback_sound (hdb : Steady db inv) (required : Bool) :
    (rollback db required).Hoare (Sound good closed inv) fun _ s =>
      Sound noneGood closed inv s := by
  refine unlessClosed_sound (fun hclosed s hs => ⟨hs.1.of_closed hclosed, hs.2⟩) ?_
  intro _
  refine Op.Hoare.bind clearLocal_sound ?_ (fun _ _ hs => hs.2)
  intro _
  cases required with
  | true =>
    refine hdb.rollback.second.mono (fun _ hs => hs.2) ?_
    intro r s hs
    exact hs
  | false => exact Op.Hoare.pure fun s hs => hs.2

/-- After it was closed the session is closed and remembers nothing. -/
theorem close_sound (hdb : Steady db inv) (force : Bool) :
    (close db force).Hoare (Sound good closed inv) fun _ s => Sound noneGood true inv s := by
  refine unlessClosed_sound ?_ ?_
  · rintro rfl s hs
    exact ⟨hs.1.of_closed rfl, hs.2⟩
  · intro _
    have hclose : (database db).close.Hoare (Sound noneGood closed inv)
        fun _ s => Sound noneGood closed inv s :=
      hdb.close.second
    refine Op.Hoare.bind_result (rollback_sound hdb force) ?_
    intro _
    refine Op.Hoare.bind_ofSafe hclose ?_
    intro _
    refine Op.Hoare.modifyLayer ?_
    intro s hs
    exact ⟨⟨rfl, fun k v hv => (hs.1.results k v hv).2.elim⟩, hs.2⟩

end QueryCache.Session
