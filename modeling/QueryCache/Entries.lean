/-!
# Maps as lists of entries

`Entries κ α` maps keys to values and remembers the order in which keys first
came in; putting a value under a key that is present keeps its place.  No key
occurs twice, and that is part of the type.

Lists of named entries in ascending order of name serve where the order of the
names is what a reader sees.
-/

namespace QueryCache

/-- A map from keys to values, in the order in which the keys came in. -/
structure Entries (κ α : Type) where
  toList : List (κ × α) := []
  /-- No key occurs twice. -/
  nodup : (toList.map Prod.fst).Nodup := by simp

namespace Entries

variable {κ α : Type}

/-- The map without entries. -/
def empty : Entries κ α := {}

instance : Inhabited (Entries κ α) := ⟨empty⟩

/-- The keys, first one first. -/
def keys (m : Entries κ α) : List κ := m.toList.map Prod.fst

/-- The values, in the order of the keys. -/
def values (m : Entries κ α) : List α := m.toList.map Prod.snd

/-- The number of entries. -/
def size (m : Entries κ α) : Nat := m.toList.length

variable [DecidableEq κ]

/-- The value under a key. -/
def find? (m : Entries κ α) (k : κ) : Option α :=
  (m.toList.find? (·.1 = k)).map Prod.snd

/-- The key has an entry. -/
def contains (m : Entries κ α) (k : κ) : Bool := m.toList.any (·.1 = k)

/-- Puts a value under a key: in place if the key is present, else at the end. -/
def insertList (k : κ) (a : α) : List (κ × α) → List (κ × α)
  | [] => [(k, a)]
  | e :: rest => if e.1 = k then (k, a) :: rest else e :: insertList k a rest

theorem mem_keys_insertList {k x : κ} {a : α} {l : List (κ × α)} :
    x ∈ (insertList k a l).map Prod.fst ↔ x = k ∨ x ∈ l.map Prod.fst := by
  induction l with
  | nil => simp [insertList]
  | cons e rest ih =>
    by_cases h : e.1 = k
    · simp only [insertList, h, if_true, List.map_cons, List.mem_cons]
      grind
    · simp only [insertList, h, if_false, List.map_cons, List.mem_cons, ih]
      grind

theorem nodup_insertList {k : κ} {a : α} {l : List (κ × α)} (h : (l.map Prod.fst).Nodup) :
    ((insertList k a l).map Prod.fst).Nodup := by
  induction l with
  | nil => simp [insertList]
  | cons e rest ih =>
    rw [List.map_cons, List.nodup_cons] at h
    by_cases hk : e.1 = k
    · rw [insertList, if_pos hk, List.map_cons, List.nodup_cons]
      exact ⟨hk ▸ h.1, h.2⟩
    · simp only [insertList, hk, if_false, List.map_cons, List.nodup_cons]
      refine ⟨fun hm => ?_, ih h.2⟩
      rcases mem_keys_insertList.1 hm with rfl | hm
      · exact hk rfl
      · exact h.1 hm

/-- Puts a value under a key. -/
def insert (m : Entries κ α) (k : κ) (a : α) : Entries κ α :=
  ⟨insertList k a m.toList, nodup_insertList m.nodup⟩

/-- Takes a key out. -/
def erase (m : Entries κ α) (k : κ) : Entries κ α :=
  ⟨m.toList.filter (fun e => decide (e.1 ≠ k)), m.nodup.sublist (List.filter_sublist.map _)⟩

/-- Keeps the entries that satisfy a test. -/
def filter (m : Entries κ α) (p : κ × α → Bool) : Entries κ α :=
  ⟨m.toList.filter p, m.nodup.sublist (List.filter_sublist.map _)⟩

end Entries

/-! ## Names in ascending order -/

/-- Puts a named entry into its place; an earlier entry of the name gives way. -/
def insertNamed {α : Type} (name : String) (a : α) : List (String × α) → List (String × α)
  | [] => [(name, a)]
  | (n, b) :: rest =>
    if name < n then (name, a) :: (n, b) :: rest
    else if name = n then (name, a) :: rest
    else (n, b) :: insertNamed name a rest

end QueryCache
