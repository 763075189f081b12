import Mathlib
import QueryCache.Key.Codec
import QueryCache.Proofs.Json.Members
import QueryCache.Proofs.Query.Key

/-!
# JSON parameters as key components

A JSON parameter becomes a component: arrays item by item, and an object as its compact text.
So an object and the string of its text become the same component, and that is all that is
lost: other values become different components, and queries that differ in one of them have
different keys.

1. values that become one component
2. keys that differ in one value
3. JSON parameters
-/

namespace QueryCache

/-! ## Values that become one component -/

namespace Json

/-- The values are the same, but for objects outside of objects, where a string may stand for
the object that it is the text of. -/
inductive Alike : Json → Json → Prop where
  | refl (a : Json) : Alike a a
  | text (members : List (String × Json)) :
      Alike (.object members) (.string (object members).render)
  | object (members : List (String × Json)) :
      Alike (.string (Json.object members).render) (.object members)
  | array {as bs : List Json} (h : List.Forall₂ Alike as bs) : Alike (.array as) (.array bs)

end Json

namespace KeyComponent

open Json (IsValue AreValues Alike)

mutual

theorem ofJson_eq_of_alike : ∀ {a b : Json}, a.Alike b → ofJson a = ofJson b
  | _, _, .refl _ => rfl
  | _, _, .text _ => rfl
  | _, _, .object _ => rfl
  | _, _, .array h => congrArg list (ofJsonItems_eq_of_alike h)

theorem ofJsonItems_eq_of_alike : ∀ {as bs : List Json}, List.Forall₂ Alike as bs →
    ofJsonItems as = ofJsonItems bs
  | _, _, .nil => rfl
  | _, _, .cons h hs => congrArg₂ List.cons (ofJson_eq_of_alike h) (ofJsonItems_eq_of_alike hs)

end

/-- A number becomes the component of no other value. -/
theorem eq_of_ofJson_number {n : Number} {b : Json} (h : ofJson (.number n) = ofJson b) :
    b = .number n := by
  cases b with
  | number m => rcases n with _ | _ | _ <;> rcases m with _ | _ | _ <;> cases h <;> rfl
  | _ => rcases n with _ | _ | _ <;> cases h

mutual

/-- Values that become one component are alike, since the text of an object tells the object. -/
theorem alike_of_ofJson_eq : ∀ {a b : Json}, a.IsValue → b.IsValue → ofJson a = ofJson b →
    a.Alike b
  | .null, b, _, _, h => by
    cases b with
    | null => exact .refl _
    | number m => cases eq_of_ofJson_number h.symm
    | _ => cases h
  | .bool x, b, _, _, h => by
    cases b with
    | bool y =>
      obtain rfl := KeyComponent.bool.inj h
      exact .refl _
    | number m => cases eq_of_ofJson_number h.symm
    | _ => cases h
  | .number n, b, _, _, h => by
    rw [eq_of_ofJson_number h]
    exact .refl _
  | .string s, b, _, _, h => by
    cases b with
    | string s' =>
      obtain rfl := KeyComponent.text.inj h
      exact .refl _
    | object members =>
      obtain rfl := KeyComponent.text.inj h
      exact .object members
    | number m => cases eq_of_ofJson_number h.symm
    | _ => cases h
  | .array items, b, ha, hb, h => by
    cases b with
    | array items' => exact .array (alike_of_ofJsonItems_eq ha hb (KeyComponent.list.inj h))
    | number m => cases eq_of_ofJson_number h.symm
    | _ => cases h
  | .object members, b, ha, hb, h => by
    cases b with
    | string s =>
      obtain rfl := KeyComponent.text.inj h
      exact .text members
    | object members' =>
      rw [Json.render_inj ha hb (KeyComponent.text.inj h)]
      exact .refl _
    | number m => cases eq_of_ofJson_number h.symm
    | _ => cases h

theorem alike_of_ofJsonItems_eq : ∀ {as bs : List Json}, AreValues as → AreValues bs →
    ofJsonItems as = ofJsonItems bs → List.Forall₂ Alike as bs
  | [], bs, _, _, h => by
    cases bs with
    | nil => exact .nil
    | cons => cases h
  | a :: as, bs, ha, hb, h => by
    cases bs with
    | nil => cases h
    | cons b bs =>
      obtain ⟨hhead, htail⟩ := List.cons.inj h
      exact .cons (alike_of_ofJson_eq ha.1 hb.1 hhead) (alike_of_ofJsonItems_eq ha.2 hb.2 htail)

end

/-- Two values become one component exactly if they are alike. -/
theorem ofJson_eq_iff_alike {a b : Json} (ha : a.IsValue) (hb : b.IsValue) :
    ofJson a = ofJson b ↔ a.Alike b :=
  ⟨alike_of_ofJson_eq ha hb, ofJson_eq_of_alike⟩

end KeyComponent

/-! ## Keys that differ in one value -/

variable {ρ : Type}

/-- The value of a parameter that brings one in stands in the key. -/
theorem Statement.keyValues_bindParameters_eq_iff (sql : String) {ps : List ParameterMapping}
    {before after : List KeyComponent} {p : ParameterMapping} (hp : ps[before.length]? = some p)
    (hmode : p.mode ≠ .output) {x y : KeyComponent} :
    BoundStatement.keyValues ⟨sql, bindParameters ps (before ++ x :: after)⟩ =
      BoundStatement.keyValues ⟨sql, bindParameters ps (before ++ y :: after)⟩ ↔ x = y := by
  induction before generalizing ps with
  | nil =>
    cases ps with
    | nil => cases hp
    | cons q ps =>
      obtain rfl := Option.some.inj hp
      simp [BoundStatement.keyValues, bindParameters, hmode]
  | cons v before ih =>
    cases ps with
    | nil => cases hp
    | cons q ps =>
      have hrest := ih hp
      unfold BoundStatement.keyValues at hrest ⊢
      -- The parameter before it has one value in both keys, or in neither.
      by_cases hq : q.mode = .output
      · simpa [bindParameters, hq] using hrest
      · simpa [bindParameters, hq] using hrest

/-- The keys of two queries that differ in one value at most are equal exactly if the values
are. -/
theorem Session.queryKey_bind_eq_iff {s s' : Session} (henv : s.environment = s'.environment)
    {st : Statement ρ} {before after : List KeyComponent} {p : ParameterMapping}
    (hp : st.parameters[before.length]? = some p) (hmode : p.mode ≠ .output) {x y : KeyComponent}
    (w : RowBounds) : s.queryKey st (st.bind (before ++ x :: after)) w =
      s'.queryKey st (st.bind (before ++ y :: after)) w ↔ x = y := by
  rw [queryKey, queryKey, CacheKey.ofComponents_injective.eq_iff, keyComponents, keyComponents,
    henv, List.append_left_inj, ← Statement.keyValues_bindParameters_eq_iff st.sql hp hmode]
  exact List.append_right_inj _

/-! ## JSON parameters -/

namespace KeyComponent

open Json (IsValue AreValues Alike)

/-- Different JSON values become different components. -/
def JsonSeparates : Prop :=
  ∀ a b : Json, a.IsValue → b.IsValue → (ofJson a = ofJson b ↔ a = b)

/-- The empty object becomes the component of its text. -/
theorem not_jsonSeparates : ¬ JsonSeparates := by
  intro h
  have heq := (h (.object []) (.string "\x7b\x7d") ⟨.nil, trivial⟩ trivial).1 (by decide)
  cases heq

/-- Two JSON values become one component exactly if they are alike: the same, but that outside
of objects a string may stand for the object whose compact text it is.  So two objects become one
component exactly if they have the same members, in whichever order these were written, and
queries of open sessions that differ at most in one JSON parameter have one key exactly if the two
values of the parameter are alike. -/
theorem ofJson_separates {a b : Json} (ha : a.IsValue) (hb : b.IsValue) :
    (ofJson a = ofJson b ↔ a.Alike b) ∧
    (∀ fields fields' : List (String × Json), a = .record fields → b = .record fields' →
      (fields.map Prod.fst).Nodup → (fields'.map Prod.fst).Nodup →
      (ofJson a = ofJson b ↔ fields.Perm fields')) ∧
    ∀ {ρ : Type} (s s' : Session) (st : Statement ρ) (before after : List KeyComponent)
      (p : ParameterMapping) (w : RowBounds), s.closed = false → s'.closed = false →
      s.environment = s'.environment → st.parameters[before.length]? = some p →
      p.mode ≠ .output → ∃ k k', s.key st (st.bind (before ++ ofJson a :: after)) w = .ok k ∧
        s'.key st (st.bind (before ++ ofJson b :: after)) w = .ok k' ∧ (k = k' ↔ a.Alike b) := by
  refine ⟨ofJson_eq_iff_alike ha hb, ?_, ?_⟩
  · rintro fields fields' rfl rfl hnodup hnodup'
    rw [← Json.record_eq_iff hnodup hnodup']
    constructor
    · exact fun h => Json.render_inj ha hb (KeyComponent.text.inj h)
    · exact fun h => congrArg ofJson h
  · intro ρ s s' st before after p w hs hs' henv hp hmode
    refine ⟨_, _, Session.key_eq_ok hs st _ w, Session.key_eq_ok hs' st _ w, ?_⟩
    rw [Session.queryKey_bind_eq_iff henv hp hmode w, ofJson_eq_iff_alike ha hb]

/-- A select with one parameter. -/
def sampleFilter : Statement Unit :=
  { id := "find", kind := .select, sql := "select", parameters := [{ property := "filter" }] }

/-- An object with the number one as a float, or with the next float above it. -/
def sampleLimit (next : Bool) : Json :=
  .record [("limit", .number (.float ⟨if next then 4607182418800017409 else 4607182418800017408⟩))]

theorem isValue_sampleLimit (next : Bool) : (sampleLimit next).IsValue := by
  refine Json.isValue_record fun f hf => ?_
  obtain rfl := List.mem_singleton.1 hf
  cases next <;> rfl

/-- Two neighbouring floats, inside of objects, make different keys. -/
theorem ofJson_separates_neighbours : ∃ k k',
    ({} : Session).key sampleFilter (sampleFilter.bind [ofJson (sampleLimit false)]) {} = .ok k ∧
    ({} : Session).key sampleFilter (sampleFilter.bind [ofJson (sampleLimit true)]) {} = .ok k' ∧
    k ≠ k' := by
  obtain ⟨hiff, hfields, hkeys⟩ :=
    ofJson_separates (isValue_sampleLimit false) (isValue_sampleLimit true)
  obtain ⟨k, k', hk, hk', hkey⟩ := hkeys {} {} sampleFilter [] [] { property := "filter" } {} rfl
    rfl rfl rfl (by decide)
  refine ⟨k, k', hk, hk', fun heq => ?_⟩
  have hperm := (hfields _ _ rfl rfl (by decide) (by decide)).1 (hiff.2 (hkey.1 heq))
  simp at hperm

end KeyComponent

end QueryCache
