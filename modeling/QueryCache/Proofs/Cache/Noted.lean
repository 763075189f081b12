import Mathlib
import QueryCache.Proofs.Cache.Honesty
import QueryCache.Proofs.Cache.Interference

/-!
# Calls that are noted

What one user asks of a cache, and in which order, can be told from a list in which
each of its calls is noted with its result, whether or not the call fails.  The
noted call does what the call itself does, and nobody else notes anything.

1. operations and calls
2. a cache whose calls are noted
-/

namespace QueryCache

variable {ε σ α ν : Type}

/-! ## Operations and calls -/

/-- The operation, which is noted in a list with its result. -/
def Op.noted (entry : Except ε α → ν) (m : Op ε σ α) : Op ε (List ν × σ) α := do
  let r ← ((Focus.second fun _ => []).run m).result
  Op.modifyLayer (· ++ [entry r])
  Op.ofExcept r

/-- The call, which is noted in a list with its result when it ends. -/
def Await.noted (entry : Except ε α → ν) (m : Await ε σ α) : Await ε (List ν × σ) α := do
  let r ← ((Focus.second fun _ => []).await m).result
  .ofOp (Op.modifyLayer (· ++ [entry r]))
  .ofOp (Op.ofExcept r)

/-- A noted operation gives what it gives without the list. -/
theorem Op.noted_run (entry : Except ε α → ν) (m : Op ε σ α) (c : Caller) (w : World (List ν × σ)) :
    noted entry m c w =
      ((m c ⟨w.env, w.state.2⟩).1, ⟨(m c ⟨w.env, w.state.2⟩).2.env,
        (w.state.1 ++ [entry (m c ⟨w.env, w.state.2⟩).1], (m c ⟨w.env, w.state.2⟩).2.state)⟩) := by
  have hcaller : (Focus.second fun _ => [] : Focus (List ν × σ) σ).caller w.state c = c := by
    show { c with owners := c.owners ++ [] } = c
    rw [List.append_nil]
  have hrun : (((Focus.second fun _ => []).run m).result : Op ε (List ν × σ) _) c w =
      (.ok (m c ⟨w.env, w.state.2⟩).1, ⟨(m c ⟨w.env, w.state.2⟩).2.env,
        (w.state.1, (m c ⟨w.env, w.state.2⟩).2.state)⟩) := by
    show (Except.ok (m _ _).1, _) = _
    rw [hcaller]
    rfl
  rw [noted, Op.bind_of_ok hrun]
  rfl

/-- A noted operation is the last entry of the list afterwards. -/
theorem Op.noted_ends (entry : Except ε α → ν) (m : Op ε σ α) (c : Caller) (e : Environment)
    (j : List ν) (y : σ) :
    ∃ r e' y', noted entry m c ⟨e, (j, y)⟩ = (r, ⟨e', (j ++ [entry r], y')⟩) :=
  ⟨_, _, _, noted_run entry m c ⟨e, (j, y)⟩⟩

/-- The others leave the list as it is. -/
def NotesNothing (s s' : List ν × σ) : Prop := s'.1 = s.1

/-- A noted call is the last entry of the list afterwards, whatever others do. -/
theorem Await.noted_amid (entry : Except ε α → ν) (m : Await ε σ α) (t : Thread) (j : List ν) :
    (noted entry m).HoareAmid NotesNothing t (fun s => s.1 = j)
      fun r s => s.1 = j ++ [entry r] := by
  have hm : m.HoareAmid (fun _ _ => True) t (fun _ => True) fun _ _ => True :=
    ((Throughout.unasked m).amid (fun _ _ _ h => h) t).mono (fun _ h => h) fun _ _ _ => trivial
  have hfocus : ((Focus.second fun _ => [] : Focus (List ν × σ) σ).await m).HoareAmid NotesNothing t
      (fun s => s.1 = j ∧ True) fun _ s => s.1 = j ∧ True :=
    hm.focus (fun _ _ _ => rfl) (fun _ _ hs => hs) fun s s' hs hstep => ⟨hstep.trans hs, trivial⟩
  have hbelow : ((Focus.second fun _ => [] : Focus (List ν × σ) σ).await m).HoareAmid NotesNothing t
      (fun s => s.1 = j) fun _ s => s.1 = j :=
    hfocus.mono (fun _ hs => ⟨hs, trivial⟩) fun _ _ hs => hs.1
  refine HoareAmid.bind_result hbelow fun r => ?_
  have hnote : (ofOp (Op.modifyLayer (· ++ [entry r])) : Await ε (List ν × σ) Unit).HoareAmid
      NotesNothing t (fun s => s.1 = j) fun x s => x = .ok () ∧ s.1 = j ++ [entry r] :=
    .ofOp fun c w _ hw => ⟨rfl, congrArg (· ++ [entry r]) hw⟩
  exact HoareAmid.bind_ok hnote (.ofOp fun c w _ hw => hw)

/-! ## A cache whose calls are noted -/

/-- The cache, whose calls are noted with their results. -/
def Cache.recorded (d : Cache σ) : Cache (List Event × σ) where
  id := d.id
  put k x := .noted (.put k x) (d.put k x)
  get k := .noted (.get k) (d.get k)
  remove k := .noted (.remove k) (d.remove k)
  clear := .noted .clear d.clear
  size := .noted .size d.size
  releaseLock k := .noted (.releaseLock k) (d.releaseLock k)
  stats s := d.stats s.2
  held s := d.held s.2

end QueryCache
