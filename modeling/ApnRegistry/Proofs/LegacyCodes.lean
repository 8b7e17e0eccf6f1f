import ApnRegistry.Proofs.Keys
import Mathlib.Tactic.SplitIfs

/-!
# Modern form

A profile waits for its modern form as long as one of its texts is missing and both of its integer
codes are there (`pending_eq_none_iff`). Filling the texts ends that, whatever operators are known, and
so does any key with both texts in it: no profile that waits has the key of a modern form.

Results:
* `pending_of_pending`, `pending_modernized`: modern form is final.
* `pending_of_key_eq`: the keys of modern forms.
* `Collision.pending_mergeOnto`: landing keeps profiles modern.
-/

namespace ApnRegistry

namespace LegacyCodes

variable {known : List String} {p q r : Profile}

/-! ## The texts -/

theorem spelled_ne_empty {width : Nat} (h : 0 < width) (code : UInt16) : spelled width code ≠ "" := by
  intro heq
  have hnil : Text.padded width code.toNat = [] := by
    rw [← String.toList_ofList (l := Text.padded width code.toNat)]
    exact congrArg String.toList heq
  have hlen := Text.length_padded width code.toNat
  rw [hnil, List.length_nil] at hlen
  omega

theorem mncText_ne_empty (known : List String) (mcc mnc : UInt16) : mncText known mcc mnc ≠ "" := by
  unfold mncText
  dsimp only
  split_ifs <;> exact spelled_ne_empty (by decide) mnc

/-! ## Profiles that wait -/

/-- A profile has nothing to wait for iff both texts are there or a code is missing. -/
theorem pending_eq_none_iff : pending known p = none ↔
    (p.mcc ≠ "" ∧ p.mnc ≠ "") ∨ p.legacyMcc = none ∨ p.legacyMnc = none := by
  unfold pending
  cases p.legacyMcc <;> cases p.legacyMnc <;> simp [String.isEmpty_iff]

/-- Filling the texts fills both. -/
theorem texts_of_pending (h : pending known p = some q) : q.mcc ≠ "" ∧ q.mnc ≠ "" := by
  unfold pending at h
  split at h
  · cases h
  · split at h
    · cases h
      exact ⟨spelled_ne_empty (by decide) _, mncText_ne_empty known _ _⟩
    · cases h

/-- **No profile with the key of a modern form waits.** -/
theorem pending_of_key_eq (h : pending known p = some q) (hk : r.key = q.key) :
    pending known r = none := by
  have hmcc : r.mcc = q.mcc := congrArg Profile.Key.mcc hk
  have hmnc : r.mnc = q.mnc := congrArg Profile.Key.mnc hk
  rw [pending_eq_none_iff, hmcc, hmnc]
  exact Or.inl (texts_of_pending h)

/-- **Modern form is final.** -/
theorem pending_of_pending (h : pending known p = some q) : pending known q = none :=
  pending_of_key_eq h rfl

/-- Putting a profile into modern form changes it. -/
theorem ne_of_pending (h : pending known p = some q) : q ≠ p := by
  rintro rfl
  rw [pending_of_pending h] at h
  cases h

/-! ## The modern form -/

theorem modernized_of_none (h : pending known p = none) : modernized known p = p := by
  rw [modernized, h, Option.getD_none]

theorem modernized_of_some (h : pending known p = some q) : modernized known p = q := by
  rw [modernized, h, Option.getD_some]

@[simp] theorem pending_modernized (known : List String) (p : Profile) :
    pending known (modernized known p) = none := by
  cases h : pending known p with
  | none => rw [modernized_of_none h, h]
  | some q => rw [modernized_of_some h, pending_of_pending h]

@[simp] theorem status_modernized (known : List String) (p : Profile) :
    (modernized known p).status = p.status := by
  cases h : pending known p with
  | none => rw [modernized_of_none h]
  | some q =>
    obtain ⟨mcc, mnc, numeric, rfl⟩ := eq_of_pending h
    rw [modernized_of_some h]

/-- Profiles with equal keys and equal integer codes wait together, and get equal keys. -/
theorem key_modernized_congr (hk : p.key = q.key) (hmcc : p.legacyMcc = q.legacyMcc)
    (hmnc : p.legacyMnc = q.legacyMnc) : (pending known p).isSome = (pending known q).isSome ∧
      (modernized known p).key = (modernized known q).key := by
  have hm : p.mcc = q.mcc := congrArg Profile.Key.mcc hk
  have hn : p.mnc = q.mnc := congrArg Profile.Key.mnc hk
  have hnum : p.numeric = q.numeric := congrArg Profile.Key.numeric hk
  have filled (mcc mnc numeric : String) :
      { p with mcc := mcc, mnc := mnc, numeric := numeric }.key =
        { q with mcc := mcc, mnc := mnc, numeric := numeric }.key :=
    congrArg (fun k : Profile.Key => { k with mcc := mcc, mnc := mnc, numeric := numeric }) hk
  unfold modernized pending
  rw [hm, hn, hnum, hmcc, hmnc]
  split
  · exact ⟨rfl, hk⟩
  · split
    · exact ⟨rfl, filled _ _ _⟩
    · exact ⟨rfl, hk⟩

/-- All profiles are in modern form. -/
def AllModern (known : List String) (ps : List Profile) : Prop := ∀ p ∈ ps, pending known p = none

instance (known : List String) (ps : List Profile) : Decidable (AllModern known ps) :=
  inferInstanceAs (Decidable (∀ p ∈ ps, pending known p = none))

end LegacyCodes

/-! ## Landing -/

theorem EditStatus.isUnedited_eq_false {status : EditStatus} :
    status.isUnedited = false ↔ status ≠ .unedited := by
  cases status <;> decide

namespace Collision

variable {known : List String} {row p : Profile}

/-- Modern profiles that land on each other leave a modern one. -/
theorem pending_mergeOnto (hrow : LegacyCodes.pending known row = none)
    (hp : LegacyCodes.pending known p = none) :
    LegacyCodes.pending known (mergeOnto row p).1 = none := by
  rw [LegacyCodes.pending_eq_none_iff] at *
  unfold mergeOnto
  simp only
  split
  · exact hrow
  · exact hp

/-- The intent of either stays: the result is unedited only if both are. -/
@[simp] theorem isUnedited_mergeOnto (row p : Profile) : (mergeOnto row p).1.status.isUnedited =
    (row.status.isUnedited && p.status.isUnedited) := by
  unfold mergeOnto precedence
  cases hrow : row.status.isUnedited <;> cases hp : p.status.isUnedited <;> simp [hrow, hp]

/-- A tombstone that lands on a row hides it. -/
theorem isVisible_of_mergeOnto (h : (mergeOnto row p).1.isVisible = true) : p.isVisible = true := by
  by_cases hs : p.status = .unedited
  · rw [Profile.isVisible, hs]
    rfl
  · have hs := EditStatus.isUnedited_eq_false.mpr hs
    unfold mergeOnto precedence at h
    simp only [hs, Bool.and_false, Bool.false_eq_true, if_false] at h
    exact h

/-- An unedited profile only renames a row with recorded intent, and widens its service types. -/
theorem mergeOnto_of_intent (hrow : row.status ≠ .unedited) (hp : p.status = .unedited) :
    (mergeOnto row p).1 = { row with
      name := p.name
      apnTypes := ServiceTypes.union row.apnTypes p.apnTypes } := by
  have hrow : row.status.isUnedited = false := EditStatus.isUnedited_eq_false.mpr hrow
  have hp : p.status.isUnedited = true := by
    rw [hp]
    rfl
  unfold mergeOnto
  simp only [hrow, hp, Bool.not_false, Bool.and_self, if_true]

/-- Any profile takes the place of an unedited row, and adds its service types. -/
theorem mergeOnto_of_unedited (hrow : row.status = .unedited) (p : Profile) :
    (mergeOnto row p).1 = { p with
      id := row.id
      apnTypes := ServiceTypes.union row.apnTypes p.apnTypes } := by
  have hstatus : precedence .unedited p.status = p.status := by
    cases p.status <;> rfl
  unfold mergeOnto
  rw [hrow, hstatus]
  rfl

end Collision

end ApnRegistry
