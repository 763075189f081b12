import QueryCache.Entries

/-!
# What a map holds

A map is known by what `find?` gives for each key.  The lemmas say what each
operation does to that view; after them nobody needs to look at the list.
-/

namespace QueryCache.Entries

variable {κ α : Type} [DecidableEq κ]

/-! ## Single operations -/

@[simp]
theorem find?_empty (k : κ) : (empty : Entries κ α).find? k = none := rfl

/-- A key is found exactly when it stands in the list. -/
theorem isSome_find?_iff (m : Entries κ α) (k : κ) : (m.find? k).isSome ↔ k ∈ m.keys := by
  simp only [find?, keys, Option.isSome_map, List.find?_isSome, List.mem_map, decide_eq_true_eq]

theorem contains_eq_isSome_find? (m : Entries κ α) (k : κ) :
    m.contains k = (m.find? k).isSome := by
  simp only [contains, find?, Option.isSome_map]
  rw [Bool.eq_iff_iff, List.find?_isSome, List.any_eq_true]

theorem find?_list_of_mem {l : List (κ × α)} (hl : (l.map Prod.fst).Nodup) {e : κ × α}
    (h : e ∈ l) : (l.find? (·.1 = e.1)).map Prod.snd = some e.2 := by
  induction l with
  | nil => cases h
  | cons x rest ih =>
    rw [List.map_cons, List.nodup_cons] at hl
    rcases List.mem_cons.1 h with rfl | h
    · simp
    · have hne : x.1 ≠ e.1 := fun heq => hl.1 (heq ▸ List.mem_map_of_mem h)
      rw [List.find?_cons_of_neg (by simpa using hne)]
      exact ih hl.2 h

/-- An entry is what is found under its key. -/
theorem find?_of_mem {m : Entries κ α} {e : κ × α} (h : e ∈ m.toList) :
    m.find? e.1 = some e.2 := find?_list_of_mem m.nodup h

/-- What is found under a key is an entry. -/
theorem mem_of_find? {m : Entries κ α} {k : κ} {a : α} (h : m.find? k = some a) :
    (k, a) ∈ m.toList := by
  obtain ⟨e, he, rfl⟩ := Option.map_eq_some_iff.1 h
  have hk : e.1 = k := by simpa using List.find?_some he
  rw [← hk]
  exact List.mem_of_find?_eq_some he

theorem find?_insertList (k x : κ) (a : α) (l : List (κ × α)) :
    ((insertList k a l).find? (·.1 = x)).map Prod.snd =
      if x = k then some a else (l.find? (·.1 = x)).map Prod.snd := by
  induction l with
  | nil =>
    by_cases h : x = k
    · simp [insertList, h]
    · simp [insertList, h, Ne.symm h]
  | cons e rest ih =>
    by_cases hk : e.1 = k
    · rw [insertList, if_pos hk]
      by_cases h : x = k
      · simp [h]
      · simp [hk, h, Ne.symm h]
    · rw [insertList, if_neg hk]
      by_cases he : e.1 = x
      · have h : ¬ x = k := fun h => hk (he.trans h)
        simp [he, h]
      · simp only [List.find?_cons, he, decide_false, ih]

@[simp]
theorem find?_insert (m : Entries κ α) (k x : κ) (a : α) :
    (m.insert k a).find? x = if x = k then some a else m.find? x :=
  find?_insertList k x a m.toList

@[simp]
theorem find?_erase (m : Entries κ α) (k x : κ) :
    (m.erase k).find? x = if x = k then none else m.find? x := by
  simp only [find?, erase, List.find?_filter]
  by_cases h : x = k
  · subst h
    rw [if_pos rfl, Option.map_eq_none_iff, List.find?_eq_none]
    intro e _
    simp
  · rw [if_neg h]
    congr 2
    funext e
    by_cases he : e.1 = x
    · simp [he, h]
    · simp [he]

theorem find?_eq_some_iff {m : Entries κ α} {k : κ} {a : α} :
    m.find? k = some a ↔ (k, a) ∈ m.toList := ⟨mem_of_find?, fun h => find?_of_mem h⟩

theorem find?_filter (m : Entries κ α) (p : κ × α → Bool) (k : κ) :
    (m.filter p).find? k = (m.find? k).filter fun a => p (k, a) := by
  ext a
  rw [find?_eq_some_iff, Option.filter_eq_some_iff, find?_eq_some_iff]
  exact List.mem_filter

theorem mem_values_iff {m : Entries κ α} {a : α} : a ∈ m.values ↔ ∃ k, m.find? k = some a := by
  simp only [values, List.mem_map, find?_eq_some_iff, Prod.exists, exists_eq_right]

/-! ## Keys -/

@[simp]
theorem mem_keys_insert {m : Entries κ α} {k x : κ} {a : α} :
    x ∈ (m.insert k a).keys ↔ x = k ∨ x ∈ m.keys := mem_keys_insertList

@[simp]
theorem mem_keys_erase {m : Entries κ α} {k x : κ} : x ∈ (m.erase k).keys ↔ x ≠ k ∧ x ∈ m.keys := by
  rw [← isSome_find?_iff, ← isSome_find?_iff, find?_erase]
  by_cases h : x = k <;> simp [h]

theorem find?_eq_none_iff {m : Entries κ α} {k : κ} : m.find? k = none ↔ k ∉ m.keys := by
  rw [← isSome_find?_iff, Option.not_isSome_iff_eq_none]

/-- What is found after several keys were taken out. -/
theorem find?_foldl_erase (keys : List κ) (m : Entries κ α) (k : κ) :
    (keys.foldl erase m).find? k = if k ∈ keys then none else m.find? k := by
  induction keys generalizing m with
  | nil => simp
  | cons key rest ih =>
    rw [List.foldl_cons, ih, find?_erase]
    by_cases hk : k = key <;> simp [hk]

/-- What is left after several keys were taken out. -/
theorem toList_foldl_erase (keys : List κ) (m : Entries κ α) :
    (keys.foldl erase m).toList = m.toList.filter fun e => decide (e.1 ∉ keys) := by
  induction keys generalizing m with
  | nil =>
    have hall : (m.toList.filter fun e => decide (e.1 ∉ [])) = m.toList :=
      List.filter_eq_self.2 (by simp)
    exact hall.symm
  | cons key rest ih =>
    rw [List.foldl_cons, ih, erase, List.filter_filter]
    congr 1
    funext e
    simp [Bool.and_comm]

/-! ## Puts of one key -/

theorem insertList_insertList (k : κ) (a a' : α) (l : List (κ × α)) :
    insertList k a' (insertList k a l) = insertList k a' l := by
  induction l with
  | nil => simp [insertList]
  | cons e rest ih =>
    by_cases hk : e.1 = k
    · simp [insertList, hk]
    · simp [insertList, hk, ih]

/-- Of two values put under one key the second one counts. -/
@[simp]
theorem insert_insert (m : Entries κ α) (k : κ) (a a' : α) :
    (m.insert k a).insert k a' = m.insert k a' := by
  unfold insert
  congr 1
  exact insertList_insertList k a a' m.toList

theorem insertList_of_find? {k : κ} {a : α} {l : List (κ × α)}
    (h : (l.find? (·.1 = k)).map Prod.snd = some a) : insertList k a l = l := by
  induction l with
  | nil => cases h
  | cons e rest ih =>
    by_cases hk : e.1 = k
    · simp only [List.find?_cons, hk, decide_true, Option.map_some, Option.some.injEq] at h
      rw [insertList, if_pos hk, ← hk, ← h]
    · simp only [List.find?_cons, hk, decide_false] at h
      rw [insertList, if_neg hk, ih h]

/-- To put what is found under a key changes nothing. -/
theorem insert_of_find? {m : Entries κ α} {k : κ} {a : α} (h : m.find? k = some a) :
    m.insert k a = m := by
  unfold insert
  congr 1
  exact insertList_of_find? h

end QueryCache.Entries
