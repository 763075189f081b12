import Mathlib
import QueryCache.Query.Session

/-!
# Keys of queries

The key of a query keeps its components, so it says which statement was run,
with which values and for which window, as long as no two statements have one
id, the window fits into a machine word and the values of all parameters count.

1. the components of a key
2. the values of a bound statement
3. the key of a session
4. what the key of a query says
-/

namespace QueryCache

/-! ## The components of a key -/

theorem KeyBuilder.components_updateAll (b : KeyBuilder) (cs : List KeyComponent) :
    (b.updateAll cs).components = b.components ++ cs := by
  induction cs generalizing b with
  | nil => exact (List.append_nil _).symm
  | cons c cs ih =>
    show ((b.update c).updateAll cs).components = b.components ++ c :: cs
    rw [ih]
    exact List.append_assoc ..

/-- A key keeps the components that it was folded from. -/
theorem CacheKey.components_ofComponents (cs : List KeyComponent) :
    (CacheKey.ofComponents cs).components = cs := by
  show (KeyBuilder.empty.updateAll cs).components = cs
  rw [KeyBuilder.components_updateAll]
  rfl

theorem CacheKey.ofComponents_injective : Function.Injective CacheKey.ofComponents :=
  Function.LeftInverse.injective CacheKey.components_ofComponents

/-! ## The values of a bound statement -/

variable {ρ : Type}

/-- All parameters bring values in and none brings a value back. -/
def Statement.InputsOnly (st : Statement ρ) : Prop := ∀ p ∈ st.parameters, p.mode = .input

/-- A parameter without a value is null. -/
theorem Statement.bindParameters_cons (p : ParameterMapping) (ps : List ParameterMapping)
    (vs : List KeyComponent) : Statement.bindParameters (p :: ps) vs =
      ⟨p.property, p.mode, vs.headD .null⟩ :: Statement.bindParameters ps vs.tail := by
  cases vs with
  | nil => rfl
  | cons v vs => rfl

theorem Statement.length_bindParameters (ps : List ParameterMapping) (vs : List KeyComponent) :
    (Statement.bindParameters ps vs).length = ps.length := by
  induction ps generalizing vs with
  | nil => rfl
  | cons p ps ih => rw [bindParameters_cons, List.length_cons, ih, List.length_cons]

theorem Statement.mode_of_mem_bindParameters {ps : List ParameterMapping} {vs : List KeyComponent}
    {q : BoundParameter} (h : q ∈ Statement.bindParameters ps vs) : ∃ p ∈ ps, q.mode = p.mode := by
  induction ps generalizing vs with
  | nil => cases h
  | cons p ps ih =>
    rw [bindParameters_cons] at h
    rcases List.mem_cons.1 h with rfl | h
    · exact ⟨p, List.mem_cons_self, rfl⟩
    · rcases ih h with ⟨p', hp', hmode⟩
      exact ⟨p', List.mem_cons_of_mem _ hp', hmode⟩

/-- The values alone tell how the parameters were bound. -/
theorem Statement.bindParameters_eq_of_values {ps : List ParameterMapping}
    {vs vs' : List KeyComponent}
    (h : (Statement.bindParameters ps vs).map (·.value) =
      (Statement.bindParameters ps vs').map (·.value)) :
    Statement.bindParameters ps vs = Statement.bindParameters ps vs' := by
  induction ps generalizing vs vs' with
  | nil => rfl
  | cons p ps ih =>
    rw [bindParameters_cons, bindParameters_cons, List.map_cons, List.map_cons] at h
    rcases List.cons.inj h with ⟨hhead, htail⟩
    have hvalue : vs.headD .null = vs'.headD .null := hhead
    rw [bindParameters_cons, bindParameters_cons, hvalue, ih htail]

theorem Statement.InputsOnly.keyValues_bind {st : Statement ρ} (h : st.InputsOnly)
    (vs : List KeyComponent) :
    (st.bind vs).keyValues = (Statement.bindParameters st.parameters vs).map (·.value) := by
  have hall : ∀ q ∈ Statement.bindParameters st.parameters vs,
      decide (q.mode ≠ .output) = true := by
    intro q hq
    rcases Statement.mode_of_mem_bindParameters hq with ⟨p, hp, hmode⟩
    rw [hmode, h p hp]
    rfl
  show ((Statement.bindParameters st.parameters vs).filter _).map _ = _
  rw [List.filter_eq_self.2 hall]

/-! ## The key of a session -/

/-- The key that a session makes for a query while it is open. -/
def Session.queryKey (s : Session) (st : Statement ρ) (b : BoundStatement) (w : RowBounds) :
    CacheKey := CacheKey.ofComponents (s.keyComponents st b w)

/-- An open session makes a key of every query. -/
theorem Session.key_eq_ok {s : Session} (h : s.closed = false) (st : Statement ρ)
    (b : BoundStatement) (w : RowBounds) : s.key st b w = .ok (s.queryKey st b w) := by
  rw [key, h]
  rfl

/-! ## What the key of a query says -/

/-- The window fits into machine words. -/
structure RowBounds.Fits (w : RowBounds) : Prop where
  offset : w.offset < UInt64.size
  limit : w.limit < UInt64.size

theorem RowBounds.Fits.eq {w w' : RowBounds} (h : w.Fits) (h' : w'.Fits)
    (hoffset : UInt64.ofNat w.offset = UInt64.ofNat w'.offset)
    (hlimit : UInt64.ofNat w.limit = UInt64.ofNat w'.limit) : w = w' := by
  have ho := congrArg UInt64.toNat hoffset
  have hl := congrArg UInt64.toNat hlimit
  rw [UInt64.toNat_ofNat_of_lt' h.offset, UInt64.toNat_ofNat_of_lt' h'.offset] at ho
  rw [UInt64.toNat_ofNat_of_lt' h.limit, UInt64.toNat_ofNat_of_lt' h'.limit] at hl
  cases w
  cases w'
  rw [RowBounds.mk.injEq]
  exact ⟨ho, hl⟩

/-- Two queries of one key run the same statement with the same values for the
same window, whichever sessions make the key. -/
theorem Session.keyComponents_inj {s s' : Session} {st st' : Statement ρ}
    {vs vs' : List KeyComponent} {w w' : RowBounds} (hid : st.id = st'.id → st = st')
    (hin : st.InputsOnly) (hw : w.Fits) (hw' : w'.Fits)
    (h : s.keyComponents st (st.bind vs) w = s'.keyComponents st' (st'.bind vs') w') :
    st = st' ∧ st.bind vs = st'.bind vs' ∧ w = w' := by
  unfold keyComponents at h
  simp only [List.cons_append, List.nil_append, List.cons.injEq, KeyComponent.text.injEq,
    KeyComponent.uint.injEq] at h
  rcases h with ⟨htext, hoffset, hlimit, -, hvalues⟩
  obtain rfl := hid htext
  refine ⟨rfl, ?_, hw.eq hw' hoffset hlimit⟩
  -- The environment comes after the values, and there are as many values as parameters.
  rw [hin.keyValues_bind, hin.keyValues_bind] at hvalues
  have hlength : ((Statement.bindParameters st.parameters vs).map (·.value)).length =
      ((Statement.bindParameters st.parameters vs').map (·.value)).length := by
    rw [List.length_map, List.length_map, Statement.length_bindParameters,
      Statement.length_bindParameters]
  have hbound := Statement.bindParameters_eq_of_values (List.append_inj_left hvalues hlength)
  rw [Statement.bind, Statement.bind, hbound]

end QueryCache
