import Mathlib
import QueryCache.Proofs.Json.Rendering

/-!
# Members in the order of their names

An object is made by putting one member after the other into its place, so the order in which
the members were written is lost, and nothing else is as long as no name occurs twice.
-/

namespace QueryCache

/-! ## One member -/

variable {α : Type} {name : String} {a : α} {members : List (String × α)}

/-- The members stand in the order of their names, each name once. -/
abbrev Ascending (members : List (String × α)) : Prop :=
  members.Pairwise fun m m' => m.1 < m'.1

/-- A member of a new name is added. -/
theorem insertNamed_perm (hname : name ∉ members.map Prod.fst) :
    (insertNamed name a members).Perm ((name, a) :: members) := by
  induction members with
  | nil => exact .refl _
  | cons m members ih =>
    obtain ⟨name', b⟩ := m
    rw [List.map_cons, List.mem_cons, not_or] at hname
    rw [insertNamed, if_neg hname.1]
    split
    · exact .refl _
    · exact ((ih hname.2).cons _).trans (.swap ..)

theorem mem_insertNamed {m : String × α} (h : m ∈ insertNamed name a members) :
    m = (name, a) ∨ m ∈ members := by
  induction members with
  | nil => exact .inl (List.mem_singleton.1 h)
  | cons m' members ih =>
    obtain ⟨name', b⟩ := m'
    rw [insertNamed] at h
    split at h
    · exact List.mem_cons.1 h
    · split at h
      · exact (List.mem_cons.1 h).imp_right (List.mem_cons_of_mem _)
      · rcases List.mem_cons.1 h with heq | h
        · exact .inr (heq ▸ List.mem_cons_self)
        · exact (ih h).imp_right (List.mem_cons_of_mem _)

theorem ascending_insertNamed (h : Ascending members) :
    Ascending (insertNamed name a members) := by
  induction members with
  | nil => exact List.pairwise_singleton _ _
  | cons m members ih =>
    obtain ⟨name', b⟩ := m
    obtain ⟨hhead, htail⟩ := List.pairwise_cons.1 h
    rw [insertNamed]
    split
    · rename_i hlt
      refine List.pairwise_cons.2 ⟨fun m' hm' => ?_, h⟩
      rcases List.mem_cons.1 hm' with rfl | hm'
      · exact hlt
      · exact hlt.trans (hhead m' hm')
    · rename_i hnot
      split
      · rename_i heq
        refine List.pairwise_cons.2 ⟨fun m' hm' => ?_, htail⟩
        rw [heq]
        exact hhead m' hm'
      · rename_i hne
        have hlt : name' < name := lt_of_le_of_ne (not_lt.1 hnot) (Ne.symm hne)
        refine List.pairwise_cons.2 ⟨fun m' hm' => ?_, ih htail⟩
        rcases mem_insertNamed hm' with rfl | hm'
        · exact hlt
        · exact hhead m' hm'

namespace Json

/-! ## All members -/

/-- The members of the object that is made of fields. -/
def membersOf (fields : List (String × Json)) : List (String × Json) :=
  fields.foldl (fun members f => insertNamed f.1 f.2 members) []

theorem record_eq (fields : List (String × Json)) : record fields = .object (membersOf fields) :=
  rfl

/-- What is kept while the fields are put into their places. -/
theorem foldl_insertNamed {fields members : List (String × Json)} (h : Ascending members) :
    Ascending (fields.foldl (fun members f => insertNamed f.1 f.2 members) members) ∧
      ∀ m ∈ fields.foldl (fun members f => insertNamed f.1 f.2 members) members,
        m ∈ fields ∨ m ∈ members := by
  induction fields generalizing members with
  | nil => exact ⟨h, fun m hm => .inr hm⟩
  | cons f fields ih =>
    have hinsert : Ascending (insertNamed f.1 f.2 members) := ascending_insertNamed h
    obtain ⟨hascending, hmem⟩ := ih hinsert
    refine ⟨hascending, fun m hm => ?_⟩
    rcases hmem m hm with hm | hm
    · exact .inl (List.mem_cons_of_mem _ hm)
    · rcases mem_insertNamed hm with rfl | hm
      · exact .inl List.mem_cons_self
      · exact .inr hm

theorem ascending_membersOf (fields : List (String × Json)) : Ascending (membersOf fields) :=
  (foldl_insertNamed List.Pairwise.nil).1

/-- Fields of names that are different, and not there yet, are all added. -/
theorem foldl_insertNamed_perm {fields members : List (String × Json)}
    (h : ((members ++ fields).map Prod.fst).Nodup) :
    (fields.foldl (fun members f => insertNamed f.1 f.2 members) members).Perm
      (members ++ fields) := by
  induction fields generalizing members with
  | nil =>
    rw [List.append_nil]
    exact .refl _
  | cons f fields ih =>
    have hmiddle : (f :: (members ++ fields)).Perm (members ++ f :: fields) :=
      List.perm_middle.symm
    have hnodup := (hmiddle.map Prod.fst).nodup_iff.2 h
    have hnew : f.1 ∉ members.map Prod.fst := by
      intro hmem
      refine (List.nodup_cons.1 hnodup).1 ?_
      rw [List.map_append]
      exact List.mem_append_left _ hmem
    have hinsert := (insertNamed_perm (a := f.2) hnew).append_right fields
    have hrest := ih ((hinsert.map Prod.fst).nodup_iff.2 hnodup)
    exact hrest.trans (hinsert.trans hmiddle)

/-- Fields of different names are all kept. -/
theorem membersOf_perm {fields : List (String × Json)} (h : (fields.map Prod.fst).Nodup) :
    (membersOf fields).Perm fields := foldl_insertNamed_perm h

/-- The order in which fields of different names are written makes no difference, and nothing
else is lost. -/
theorem record_eq_iff {fields fields' : List (String × Json)} (h : (fields.map Prod.fst).Nodup)
    (h' : (fields'.map Prod.fst).Nodup) : record fields = record fields' ↔ fields.Perm fields' := by
  rw [record_eq, record_eq, Json.object.injEq]
  constructor
  · intro heq
    exact (membersOf_perm h).symm.trans (heq ▸ membersOf_perm h')
  · intro hperm
    have hmembers := (membersOf_perm h).trans (hperm.trans (membersOf_perm h').symm)
    refine hmembers.eq_of_pairwise (fun m m' _ _ hlt hgt => ?_) (ascending_membersOf fields)
      (ascending_membersOf fields')
    exact absurd hgt (lt_asymm hlt)

theorem holdValues_iff {members : List (String × Json)} :
    HoldValues members ↔ ∀ m ∈ members, m.2.IsValue := by
  induction members with
  | nil => simp [HoldValues]
  | cons m members ih => rw [HoldValues, ih, List.forall_mem_cons]

/-- An object made of values is a value. -/
theorem isValue_record {fields : List (String × Json)} (h : ∀ f ∈ fields, f.2.IsValue) :
    (record fields).IsValue := by
  refine ⟨List.pairwise_map.2 (ascending_membersOf fields), holdValues_iff.2 fun m hm => ?_⟩
  exact h m (((foldl_insertNamed List.Pairwise.nil).2 m hm).resolve_right List.not_mem_nil)

end Json

end QueryCache
