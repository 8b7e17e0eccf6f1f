import ApnRegistry.Profile.Basic

/-!
# Rows by id

`Rows` lists profiles under their row ids, in ascending order of the ids. `put` enters a profile at
the place of its id, in place of an earlier one, and `erase` takes one out. Each operation is pinned
down by what `get?` finds afterwards.
-/

namespace ApnRegistry

/-- Profiles under their ids, by ascending id. -/
abbrev Rows := List (RowId × Profile)

namespace Rows

/-- The profile under the id. -/
def get? : Rows → RowId → Option Profile
  | [], _ => none
  | (k, p) :: rows, id => if k = id then some p else get? rows id

/-- The rows with the profile under the id. -/
def put : Rows → RowId → Profile → Rows
  | [], id, p => [(id, p)]
  | (k, q) :: rows, id, p =>
    if k = id then (id, p) :: rows
    else if id.val < k.val then (id, p) :: (k, q) :: rows
    else (k, q) :: put rows id p

/-- The rows without the one under the id. -/
def erase (rows : Rows) (id : RowId) : Rows := rows.filter (·.1 != id)

/-- The ids, in order. -/
def ids (rows : Rows) : List RowId := rows.map (·.1)

/-- The profiles, in the order of their ids. -/
def profiles (rows : Rows) : List Profile := rows.map (·.2)

/-- The profiles that carry an id, each under it. -/
def ofProfiles (ps : List Profile) : Rows :=
  ps.foldl (fun rows p => match p.id with
    | some id => rows.put id p
    | none => rows) []

/-- The ids stand in ascending order. -/
def Sorted (rows : Rows) : Prop := rows.Pairwise fun a b => a.1.val < b.1.val

@[simp] theorem get?_put_self (rows : Rows) (id : RowId) (p : Profile) :
    (rows.put id p).get? id = some p := by
  induction rows with
  | nil => simp [put, get?]
  | cons entry rows ih =>
    obtain ⟨k, q⟩ := entry
    unfold put
    split
    · simp [get?]
    · split
      · simp [get?]
      · simp [get?, *]

theorem get?_put_of_ne {rows : Rows} {id other : RowId} (h : other ≠ id) (p : Profile) :
    (rows.put id p).get? other = rows.get? other := by
  induction rows with
  | nil => simp [put, get?, Ne.symm h]
  | cons entry rows ih =>
    obtain ⟨k, q⟩ := entry
    unfold put
    split
    · rename_i hk
      subst hk
      simp [get?, Ne.symm h]
    · split
      · simp [get?, Ne.symm h]
      · simp only [get?]
        split
        · rfl
        · exact ih

@[simp] theorem get?_erase_self (rows : Rows) (id : RowId) : (rows.erase id).get? id = none := by
  induction rows with
  | nil => rfl
  | cons entry rows ih =>
    obtain ⟨k, q⟩ := entry
    by_cases hk : k = id
    · subst hk
      simpa [erase] using ih
    · have : (k != id) = true := by simpa using hk
      simp only [erase, List.filter_cons, this, if_true, get?, if_neg hk]
      exact ih

theorem get?_erase_of_ne {rows : Rows} {id other : RowId} (h : other ≠ id) :
    (rows.erase id).get? other = rows.get? other := by
  induction rows with
  | nil => rfl
  | cons entry rows ih =>
    obtain ⟨k, q⟩ := entry
    by_cases hk : k = id
    · subst hk
      simpa [erase, get?, Ne.symm h] using ih
    · have : (k != id) = true := by simpa using hk
      simp only [erase, List.filter_cons, this, if_true, get?]
      split
      · rfl
      · exact ih

end Rows

end ApnRegistry
