import Mathlib
import QueryCache.Cache.Builder

/-!
# Settings in order

Settings are checked three times before there is a cache: by themselves, as part of the builder
that is made from them, and once more where a list of recently used keys is set up.  The checks
are written apart.  Here it is said without them when settings are in order, and that each of the
first two accepts just these; so they agree, and the third one never refuses anything.

1. checks that follow each other
2. single checks
3. settings
4. builders, and those that are made from settings
-/

namespace QueryCache

/-! ## Checks that follow each other -/

section Checks

variable {ε ε' β : Type}

/-- A check and what comes after it. -/
theorem check_bind_eq_ok_iff {check : Except ε Unit} {f : Unit → Except ε β} {b : β} :
    check >>= f = .ok b ↔ check = .ok () ∧ f () = .ok b := by
  cases check with
  | ok u => exact ⟨fun h => ⟨rfl, h⟩, fun h => h.2⟩
  | error e => exact ⟨nofun, nofun⟩

/-- Another error makes no difference to what passes. -/
theorem mapError_eq_ok_iff {r : Except ε β} {f : ε → ε'} {b : β} :
    r.mapError f = .ok b ↔ r = .ok b := by
  cases r with
  | ok a =>
    rw [Except.mapError, Except.ok.injEq, Except.ok.injEq]
  | error e => exact ⟨nofun, nofun⟩

/-- What is refused under a condition passes without it. -/
theorem refuse_eq_ok_iff {p : Prop} [Decidable p] {e : ε} :
    (if p then throw e else pure () : Except ε Unit) = .ok () ↔ ¬ p := by
  by_cases h : p
  · rw [if_pos h]
    exact ⟨nofun, fun hn => absurd h hn⟩
  · rw [if_neg h]
    exact ⟨fun _ => h, fun _ => rfl⟩

end Checks

/-! ## Single checks -/

namespace CacheSettings

theorem checkSize_eq_ok_iff {size : Option Nat} : checkSize size = .ok () ↔ size ≠ some 0 := by
  unfold checkSize
  split
  · exact ⟨nofun, fun h => absurd rfl h⟩
  · rename_i h
    exact ⟨fun _ => h, fun _ => rfl⟩

theorem checkInterval_eq_ok_iff {field : String} {interval : Option Duration} :
    checkInterval field interval = .ok () ↔ interval ≠ some ⟨0⟩ := by
  cases interval with
  | none => exact ⟨fun _ => nofun, fun _ => rfl⟩
  | some d =>
    obtain ⟨n⟩ := d
    cases n with
    | zero => exact ⟨nofun, fun h => absurd rfl h⟩
    | succ n => exact ⟨fun _ => nofun, fun _ => rfl⟩

theorem checkTimeout_eq_ok_iff {blocking : Bool} {timeout : Option Duration} :
    checkTimeout blocking timeout = .ok () ↔ (blocking = false → timeout = none) := by
  cases blocking with
  | true =>
    rw [checkTimeout, Bool.not_true, Bool.and_false]
    exact ⟨fun _ => nofun, fun _ => rfl⟩
  | false =>
    cases timeout with
    | none => exact ⟨fun _ _ => rfl, fun _ => rfl⟩
    | some d => exact ⟨nofun, fun h => nomatch h rfl⟩

/-! ## Settings -/

/-- A cache can honour the settings. -/
structure InOrder (s : CacheSettings) : Prop where
  /-- There is room for an entry. -/
  size : s.size ≠ some 0
  /-- Entries live for some time. -/
  interval : s.flushInterval ≠ some ⟨0⟩
  /-- Nobody waits where nothing blocks. -/
  timeout : s.blocking = false → s.blockingTimeout = none
  /-- Readers of a weak cache share the value that keeps its entry. -/
  shared : s.eviction = .weak → s.readOnly = true

theorem validate_eq_ok_iff {s : CacheSettings} : s.validate = .ok () ↔ s.InOrder := by
  unfold validate
  rw [check_bind_eq_ok_iff, check_bind_eq_ok_iff, check_bind_eq_ok_iff, checkSize_eq_ok_iff,
    checkInterval_eq_ok_iff, checkTimeout_eq_ok_iff, refuse_eq_ok_iff]
  constructor
  · rintro ⟨hsize, hinterval, htimeout, hcopies⟩
    refine ⟨hsize, hinterval, htimeout, fun hweak => ?_⟩
    cases hshared : s.readOnly with
    | true => rfl
    | false => exact absurd ⟨hweak, by rw [readWrite, hshared]; rfl⟩ hcopies
  · intro h
    refine ⟨h.size, h.interval, h.timeout, ?_⟩
    rintro ⟨hweak, hcopies⟩
    rw [readWrite, h.shared hweak] at hcopies
    cases hcopies

end CacheSettings

/-! ## Builders -/

namespace CacheBuilder

variable {b : CacheBuilder} {s : Stack}

/-- A cache can honour what the builder asks for. -/
structure InOrder (b : CacheBuilder) : Prop where
  /-- The cache serves a namespace. -/
  named : b.id ≠ ""
  size : b.size ≠ some 0
  interval : b.clearInterval ≠ some ⟨0⟩
  timeout : b.blocking = false → b.blockingTimeout = none
  /-- A store of its own kind is taken as it is, whatever the policy. -/
  shared : b.implementation = none → b.eviction = .weak → b.readWrite = false

theorem validate_eq_ok_iff : b.validate = .ok () ↔ b.InOrder := by
  have hnamed : b.id.isEmpty = true ↔ b.id = "" := String.isEmpty_iff
  have hcopies : (¬ (b.implementation.isNone ∧ b.eviction = .weak ∧ b.readWrite)) ↔
      (b.implementation = none → b.eviction = .weak → b.readWrite = false) := by
    rw [Option.isNone_iff_eq_none, not_and, not_and, Bool.not_eq_true]
  unfold validate
  by_cases hid : b.id = ""
  · -- The empty id is refused before anything else is looked at.
    rw [if_pos (hnamed.2 hid)]
    exact ⟨nofun, fun h => absurd hid h.named⟩
  · rw [if_neg (mt hnamed.1 hid)]
    show (CacheSettings.checkSize b.size >>= _) = .ok () ↔ _
    rw [check_bind_eq_ok_iff, check_bind_eq_ok_iff, check_bind_eq_ok_iff,
      CacheSettings.checkSize_eq_ok_iff, CacheSettings.checkInterval_eq_ok_iff,
      CacheSettings.checkTimeout_eq_ok_iff, refuse_eq_ok_iff, hcopies]
    exact ⟨fun ⟨hsize, hinterval, htimeout, hshared⟩ =>
      ⟨hid, hsize, hinterval, htimeout, hshared⟩,
      fun h => ⟨h.size, h.interval, h.timeout, h.shared⟩⟩

/-- The size that the builder accepts is one that every layer accepts. -/
theorem InOrder.checkEviction (h : b.InOrder) : b.checkEviction = .ok () := by
  unfold CacheBuilder.checkEviction
  rw [CacheSettings.checkSize_eq_ok_iff.2 h.size, ite_self]

/-- Without custom parts, a builder in order makes its own layers, and no other one makes
anything. -/
theorem build_eq_ok_iff (himpl : b.implementation = none) (hdec : b.decorators = []) :
    b.build = .ok s ↔ b.InOrder ∧ s = ⟨b.id, b.outerLayers ++ [b.evictionLayer]⟩ := by
  unfold build
  rw [himpl, hdec, check_bind_eq_ok_iff, mapError_eq_ok_iff, validate_eq_ok_iff]
  refine and_congr_right fun h => ?_
  rw [check_bind_eq_ok_iff, mapError_eq_ok_iff]
  constructor
  · rintro ⟨-, hs⟩
    exact (Except.ok.inj hs).symm
  · rintro rfl
    exact ⟨h.checkEviction, rfl⟩

/-! ## Builders that are made from settings -/

section OfSettings

variable {id : String} {settings : CacheSettings}

/-- The builder of a namespace is in order just if the settings are. -/
theorem inOrder_ofSettings (hid : id ≠ "") :
    (ofSettings id settings).InOrder ↔ settings.InOrder := by
  have hshared : (ofSettings id settings).readWrite = false ↔ settings.readOnly = true := by
    rw [ofSettings, CacheSettings.readWrite, Bool.not_eq_false']
  constructor
  · intro h
    exact ⟨h.size, h.interval, h.timeout, fun hweak => hshared.1 (h.shared rfl hweak)⟩
  · intro h
    exact ⟨hid, h.size, h.interval, h.timeout, fun _ hweak => hshared.2 (h.shared hweak)⟩

/-- Of the settings of a namespace a cache is built just if they are accepted by themselves. -/
theorem exists_build_iff (hid : id ≠ "") :
    (∃ s, (ofSettings id settings).build = .ok s) ↔ settings.validate = .ok () := by
  rw [CacheSettings.validate_eq_ok_iff, ← inOrder_ofSettings hid]
  constructor
  · rintro ⟨s, hs⟩
    exact ((build_eq_ok_iff rfl rfl).1 hs).1
  · intro h
    exact ⟨_, (build_eq_ok_iff rfl rfl).2 ⟨h, rfl⟩⟩

/-- What is built serves the namespace. -/
theorem id_of_build_ofSettings (hs : (ofSettings id settings).build = .ok s) : s.id = id :=
  congrArg Stack.id ((build_eq_ok_iff rfl rfl).1 hs).2

/-- Without a namespace nothing is built, whatever the settings. -/
theorem build_ofSettings_unnamed (settings : CacheSettings) :
    (ofSettings "" settings).build = .error (.config (.missingRequired "id")) := rfl

end OfSettings

end CacheBuilder

end QueryCache
