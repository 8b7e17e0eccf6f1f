import ApnRegistry.Proofs.LegacyCodes
import ApnRegistry.Proofs.Modernize

/-!
# What putting rows into modern form leaves

Rows are put into modern form one by one, and any of them may be merged onto another, or go. Whatever
happens, the table that is left compares with the one before by `Table.Refreshed`, which composes.
A row may fail, and then the rows before it have been put into modern form all the same. Keys need
not be distinct for any of this; where they are, no row fails.

The reason why no row meets another one too early is that a row that still waits for its modern form
lacks a text, which is part of its key. So it is never the row that a modern form hits, and it is as it
was when its turn comes.

Results:
* `Table.Landing.refreshed`, `Table.refreshed_refreshAll`: one row, and any number of rows.
* `Table.countP_of_refreshAll`: without a failure every row that waits is counted, and none of them
  is left as it was (`Table.pending_of_refreshAll`).
* `Table.refreshAll_of_allModern`, `Table.eq_of_refreshAll`: where no row waits, nothing happens.
* `Table.exists_refreshAll`: where keys are distinct, no row fails.
-/

namespace ApnRegistry

open Collision LegacyCodes

namespace Table

variable {known : List String} {t t₁ t' t'' : Table} {id other : RowId}
  {old modern p q row : Profile} {found : List Profile} {done : Bool} {k : Profile.Key}
  {P : Profile → Prop}

/-- Some row of which `P` is true has the key, once it is in modern form. -/
def Shows (known : List String) (t : Table) (P : Profile → Prop) (k : Profile.Key) : Prop :=
  ∃ id p, t.get? id = some p ∧ (modernized known p).key = k ∧ P p

/-- An ordinary row that was changed or deleted by hand. -/
def HasIntent (p : Profile) : Prop := p.owner = .others ∧ p.status.isUnedited = false

/-- What putting rows into modern form leaves of a table. -/
structure Refreshed (known : List String) (t t' : Table) : Prop where
  /-- No id is new. -/
  ids : ∀ id, (t'.get? id).isSome = true → (t.get? id).isSome = true
  /-- A row that waits was there before. -/
  waits : ∀ id p, (pending known p).isSome = true → t'.get? id = some p → t.get? id = some p
  /-- The keys are the same, as soon as all rows are in modern form. -/
  keys : ∀ k, t'.Shows known (fun _ => True) k ↔ t.Shows known (fun _ => True) k
  /-- So are the keys of the ordinary rows that were changed by hand. -/
  intents : ∀ k, t'.Shows known HasIntent k ↔ t.Shows known HasIntent k
  /-- A row stays as it is if it does not wait itself, and no row that waits will have its key. -/
  unchanged : ∀ id p, t.get? id = some p → pending known p = none →
    (∀ other m, t.get? other = some m → (pending known m).isSome = true →
      (modernized known m).key ≠ p.key) → t'.get? id = some p

namespace Refreshed

theorem refl (known : List String) (t : Table) : Refreshed known t t where
  ids := fun _ h => h
  waits := fun _ _ _ h => h
  keys := fun _ => Iff.rfl
  intents := fun _ => Iff.rfl
  unchanged := fun _ _ h _ _ => h

theorem trans (h : Refreshed known t t') (h' : Refreshed known t' t'') : Refreshed known t t'' where
  ids := fun id hs => h.ids id (h'.ids id hs)
  waits := fun id p hp hg => h.waits id p hp (h'.waits id p hp hg)
  keys := fun k => (h'.keys k).trans (h.keys k)
  intents := fun k => (h'.intents k).trans (h.intents k)
  unchanged := fun id p hg hp hne => h'.unchanged id p (h.unchanged id p hg hp hne) hp
    fun other m hm hwaits => hne other m (h.waits other m hwaits hm) hwaits

end Refreshed

/-! ## The keys that show -/

/-- A row that is set shows its key, besides those of the other rows. -/
theorem shows_set : (t.set id p).Shows known P k ↔
    (modernized known p).key = k ∧ P p ∨ (t.remove id).Shows known P k := by
  constructor
  · rintro ⟨i, q, hq, hk, hP⟩
    rw [get?_set] at hq
    split_ifs at hq with hi
    · cases hq
      exact Or.inl ⟨hk, hP⟩
    · exact Or.inr ⟨i, q, by rw [get?_remove, if_neg hi, hq], hk, hP⟩
  · rintro (⟨hk, hP⟩ | ⟨i, q, hq, hk, hP⟩)
    · exact ⟨id, p, by rw [get?_set, if_pos rfl], hk, hP⟩
    · rw [get?_remove] at hq
      split_ifs at hq with hi
      exact ⟨i, q, by rw [get?_set, if_neg hi, hq], hk, hP⟩

/-- So does a row that is stored. -/
theorem shows_iff_of_get? (hg : t.get? id = some p) : t.Shows known P k ↔
    (modernized known p).key = k ∧ P p ∨ (t.remove id).Shows known P k := by
  have hset (i : RowId) : (t.set id p).get? i = t.get? i := by
    rw [get?_set]
    split_ifs with hi
    · rw [hi, hg]
    · rfl
  rw [← shows_set]
  simp only [Shows, hset]

/-! ## One row -/

namespace Landing

/-- **The row itself waits no more**, and all others wait as before. -/
theorem get?_iff_of_isSome (h : Landing t id old modern t') (hp : pending known old = some modern)
    (hq : (pending known q).isSome = true) :
    t'.get? other = some q ↔ other ≠ id ∧ t.get? other = some q := by
  have waits {r : Profile} (hr : pending known r = none) : q ≠ r := by
    rintro rfl
    rw [hr] at hq
    cases hq
  cases h with
  | stay =>
    rw [get?_set]
    split_ifs with ho
    · exact iff_of_false (fun heq => waits (pending_of_pending hp) (Option.some.inj heq).symm)
        fun hne => hne.1 ho
    · simp [ho]
  | yield =>
    rw [get?_remove]
    split_ifs with ho <;> simp [ho]
  | @merge dest row _ ne there key =>
    have hrow := pending_of_key_eq hp key
    rw [get?_set, get?_remove]
    split_ifs with hd ho
    · subst hd
      rw [there]
      refine iff_of_false (fun heq => ?_) fun hne => waits hrow (Option.some.inj hne.2).symm
      exact waits (pending_mergeOnto hrow (pending_of_pending hp)) (Option.some.inj heq).symm
    · simp [ho]
    · simp [ho]

/-- No id is new. -/
theorem isSome_of_isSome (h : Landing t id old modern t') (hg : t.get? id = some old)
    (hs : (t'.get? other).isSome = true) : (t.get? other).isSome = true := by
  cases h with
  | stay =>
    rw [get?_set] at hs
    split_ifs at hs with ho
    · rw [ho, hg]
      rfl
    · exact hs
  | yield =>
    rw [get?_remove] at hs
    split_ifs at hs
    · cases hs
    · exact hs
  | merge _ _ there _ =>
    rw [get?_set, get?_remove] at hs
    split_ifs at hs with hd ho
    · rw [hd, there]
      rfl
    · cases hs
    · exact hs

/-- **A row that has no part in it stays.** -/
theorem get?_of_key_ne (h : Landing t id old modern t') (hq : t.get? other = some q)
    (ho : other ≠ id) (hk : q.key ≠ modern.key) : t'.get? other = some q := by
  cases h with
  | stay => rw [get?_set, if_neg ho, hq]
  | yield => rw [get?_remove, if_neg ho, hq]
  | @merge dest row _ _ there key =>
    have hd : other ≠ dest := by
      rintro rfl
      obtain rfl : q = row := Option.some.inj (hq.symm.trans there)
      exact hk key
    rw [get?_set, if_neg hd, get?_remove, if_neg ho, hq]

/-- **The keys that show do not change**, for a property that survives modern form and merging, and
that no policy row has which gives way to a row without it. -/
theorem shows_iff (h : Landing t id old modern t') (hp : pending known old = some modern)
    (hg : t.get? id = some old) (hmodern : P old ↔ P modern)
    (hyield : old.owner = .dpc → P old → ∀ row, P row)
    (hmerge : old.owner = .others → ∀ row, row.key = modern.key →
      (P (mergeOnto row modern).1 ↔ P row ∨ P modern)) :
    t'.Shows known P k ↔ t.Shows known P k := by
  have hold : modernized known old = modern := modernized_of_some hp
  have hself : modernized known modern = modern := modernized_of_none (pending_of_pending hp)
  rw [shows_iff_of_get? hg, hold, hmodern]
  cases h with
  | stay => rw [shows_set, hself]
  | @yield dest row owner ne there key =>
    have hrow : modernized known row = row := modernized_of_none (pending_of_key_eq hp key)
    refine (or_iff_right_of_imp ?_).symm
    rintro ⟨hk, hP⟩
    refine ⟨dest, row, by rw [get?_remove, if_neg ne, there], ?_, hyield owner (hmodern.mpr hP) row⟩
    rw [hrow, key, hk]
  | @merge dest row owner ne there key =>
    have hrow : pending known row = none := pending_of_key_eq hp key
    have hmerged : modernized known (mergeOnto row modern).1 = (mergeOnto row modern).1 :=
      modernized_of_none (pending_mergeOnto hrow (pending_of_pending hp))
    have hthere : (t.remove id).get? dest = some row := by rw [get?_remove, if_neg ne, there]
    rw [shows_set, shows_iff_of_get? hthere, hmerged, modernized_of_none hrow, key_mergeOnto key, key,
      hmerge owner row key, ← or_assoc, ← and_or_left, or_comm (a := P row)]

/-- **One row** is put into modern form. -/
theorem refreshed (h : Landing t id old modern t') (hp : pending known old = some modern)
    (hg : t.get? id = some old) : Refreshed known t t' where
  ids := fun _ => h.isSome_of_isSome hg
  waits := fun _ _ hq hget => ((h.get?_iff_of_isSome hp hq).mp hget).2
  keys := fun _ => h.shows_iff hp hg Iff.rfl (fun _ _ _ => trivial) fun _ _ _ => by simp
  intents := fun _ => by
    have ho := owner_of_pending hp
    have hs : modern.status = old.status := by
      rw [← modernized_of_some hp, status_modernized]
    refine h.shows_iff hp hg ?_ (fun hdpc hP => ?_) fun hothers row hk => ?_
    · rw [HasIntent, HasIntent, ho, hs]
    · rw [HasIntent, hdpc] at hP
      cases hP.1
    · have hrow : row.owner = .others := (Profile.owner_eq_of_key_eq hk).trans (ho.trans hothers)
      have hmerged : (mergeOnto row modern).1.owner = .others :=
        (Profile.owner_eq_of_key_eq (key_mergeOnto hk)).trans hrow
      simp only [HasIntent, hmerged, hrow, ho.trans hothers, isUnedited_mergeOnto, true_and,
        Bool.and_eq_false_iff]
  unchanged := fun i q hq hnone hne => by
    have hi : i ≠ id := by
      rintro rfl
      rw [hg, Option.some.injEq] at hq
      rw [hq, hnone] at hp
      cases hp
    refine h.get?_of_key_ne hq hi fun hk => hne id old hg (by rw [hp]; rfl) ?_
    rw [modernized_of_some hp, hk]

end Landing

/-- **What becomes of one row**: it stays as it is, and so does the table, or it waits, is stored as it was
read, and lands. -/
theorem landing_of_refresh (hv : t.Valid) (h : t.refresh known row = .ok (done, t')) :
    t' = t ∨ ∃ id modern, pending known row = some modern ∧ t.get? id = some row ∧
      Landing t id row modern t' := by
  unfold refresh at h
  split at h
  · rename_i modern hp
    cases hid : row.id with
    | none =>
      rw [modernize_of_id_none hid] at h
      cases h
      exact Or.inl rfl
    | some id =>
      by_cases hg : t.get? id = some row
      · exact Or.inr ⟨id, modern, hp, hg, (landing_of_modernize hv (id_of_pending hp) hid hg h).2⟩
      · rw [modernize_of_ne hid hg] at h
        cases h
        exact Or.inl rfl
  · cases h
    exact Or.inl rfl

theorem refreshed_of_refresh (hv : t.Valid) (h : t.refresh known row = .ok (done, t')) :
    Refreshed known t t' := by
  rcases landing_of_refresh hv h with rfl | ⟨id, modern, hp, hg, hland⟩
  · exact .refl known _
  · exact hland.refreshed hp hg

/-- A stored row that waits is put into modern form, and waits no more; all others wait as before. -/
theorem waits_of_refresh (hv : t.Valid)
    (hlive : (pending known row).isSome = true → ∃ id, row.id = some id ∧ t.get? id = some row)
    (h : t.refresh known row = .ok (done, t')) :
    done = (pending known row).isSome ∧ ∀ id p, (pending known p).isSome = true →
      (t'.get? id = some p ↔ p ≠ row ∧ t.get? id = some p) := by
  unfold refresh at h
  split at h
  · rename_i modern hp
    obtain ⟨k, hid, hg⟩ := hlive (by rw [hp]; rfl)
    obtain ⟨rfl, hland⟩ := landing_of_modernize hv (id_of_pending hp) hid hg h
    refine ⟨by rw [hp]; rfl, fun id p hs => ?_⟩
    rw [hland.get?_iff_of_isSome hp hs]
    refine and_congr_left fun hgp => not_congr ⟨?_, ?_⟩
    · rintro rfl
      exact Option.some.inj (hgp.symm.trans hg)
    · rintro rfl
      exact Option.some.inj ((hv.id_of_get? hgp).symm.trans hid)
  · rename_i hp
    cases h
    refine ⟨by rw [hp]; rfl, fun id p hs => ⟨fun hg => ⟨?_, hg⟩, And.right⟩⟩
    rintro rfl
    rw [hp] at hs
    cases hs

/-! ## All rows -/

/-- **Any rows**, of which the last may fail. -/
theorem refreshed_refreshAll (known : List String) : ∀ (found : List Profile) {t : Table}, t.Valid →
    Refreshed known t (refreshAll known found t).2
  | [], t, _ => .refl known t
  | row :: found, t, hv => by
    cases h : t.refresh known row with
    | error e =>
      rw [refreshAll_cons_of_error h]
      exact .refl known t
    | ok r =>
      obtain ⟨done, t₁⟩ := r
      rw [refreshAll_cons_of_ok h]
      exact (refreshed_of_refresh hv h).trans
        (refreshed_refreshAll known found ((moves_of_refresh hv h).valid hv))

/-- Where no row waits, nothing happens. -/
theorem refreshAll_of_allModern : ∀ {found : List Profile}, AllModern known found →
    refreshAll known found t = (.ok 0, t)
  | [], _ => rfl
  | row :: found, h => by
    have hrow : t.refresh known row = .ok (false, t) := by
      rw [refresh, h row List.mem_cons_self]
    rw [refreshAll_cons_of_ok hrow, refreshAll_of_allModern fun q hq => h q (List.mem_cons_of_mem row hq)]
    rfl

/-- **Without a failure every row that waits is counted**, and none of them is left as it was. The rows
are different ones, and those that wait are as they are stored. -/
theorem countP_of_refreshAll : ∀ {found : List Profile} {t t' : Table} {n : Nat}, t.Valid →
    found.Pairwise (fun p q => p.id ≠ q.id) →
    (∀ p ∈ found, (pending known p).isSome = true → ∃ id, p.id = some id ∧ t.get? id = some p) →
    refreshAll known found t = (.ok n, t') →
    n = found.countP (fun p => (pending known p).isSome) ∧
      ∀ p ∈ found, (pending known p).isSome = true → ∀ id, t'.get? id ≠ some p
  | [], _, _, _, _, _, _, h => by
    cases h
    exact ⟨rfl, fun _ hm => absurd hm List.not_mem_nil⟩
  | row :: found, t, t', n, hv, hd, hlive, h => by
    obtain ⟨hother, hd⟩ := List.pairwise_cons.mp hd
    obtain ⟨done, t₁, m, hr, hm, rfl⟩ := exists_of_refreshAll_cons h
    have hv₁ := (moves_of_refresh hv hr).valid hv
    obtain ⟨rfl, hwaits⟩ := waits_of_refresh hv (hlive row List.mem_cons_self) hr
    have hlive₁ : ∀ p ∈ found, (pending known p).isSome = true →
        ∃ id, p.id = some id ∧ t₁.get? id = some p := fun p hp hs => by
      obtain ⟨id, hid, hg⟩ := hlive p (List.mem_cons_of_mem row hp) hs
      exact ⟨id, hid, (hwaits id p hs).mpr ⟨fun heq => hother p hp (heq ▸ rfl), hg⟩⟩
    obtain ⟨rfl, hrest⟩ := countP_of_refreshAll hv₁ hd hlive₁ hm
    refine ⟨by rw [List.countP_cons, Nat.add_comm], fun p hp hs id hg => ?_⟩
    have hg₁ := (refreshed_refreshAll known found hv₁).waits id p hs (by rw [hm, hg])
    rcases List.mem_cons.mp hp with rfl | hp
    · exact ((hwaits id p hs).mp hg₁).1 rfl
    · exact hrest p hp hs id hg

/-- Where none is counted, nothing has happened. -/
theorem eq_of_refreshAll (hv : t.Valid) (hl : t.Lists found)
    (h : refreshAll known found t = (.ok 0, t')) : t' = t := by
  obtain ⟨hn, -⟩ := countP_of_refreshAll hv hl.different (fun p hp _ => hl.live p hp) h
  have hmodern : AllModern known found := fun p hp =>
    Option.not_isSome_iff_eq_none.mp (List.countP_eq_zero.mp hn.symm p hp)
  rw [refreshAll_of_allModern hmodern] at h
  cases h
  rfl

/-- After that, rows that were all listed are in modern form. -/
theorem pending_of_refreshAll {n : Nat} (hv : t.Valid) (hl : t.Lists found)
    (h : refreshAll known found t = (.ok n, t')) (hq : t'.get? id = some q)
    (hall : t.get? id = some q → q ∈ found) : pending known q = none := by
  refine Option.not_isSome_iff_eq_none.mp fun hs => ?_
  have hg := (refreshed_refreshAll known found hv).waits id q hs (by rw [h, hq])
  exact (countP_of_refreshAll hv hl.different (fun p hp _ => hl.live p hp) h).2 q (hall hg) hs id hq

/-! ## Distinct keys -/

/-- A row whose modern form hits one row at most is put into it without failing. -/
theorem exists_modernize {old modern : Profile} (hv : t.Valid)
    (hone : (hits modern t.rows.profiles).length ≤ 1) :
    ∃ done t', t.modernize old modern = .ok (done, t') := by
  cases hid : old.id with
  | none => exact ⟨_, _, modernize_of_id_none hid⟩
  | some id =>
    by_cases hg : t.get? id = some old
    · cases hh : hits modern t.rows.profiles with
      | nil => exact ⟨_, _, modernize_of_new hid hg hh⟩
      | cons row more =>
        cases ho : old.owner with
        | dpc => exact ⟨_, _, modernize_of_dpc hid hg ho (by rw [hh]; nofun)⟩
        | others =>
          rw [hh, List.length_cons] at hone
          obtain rfl : more = [] := List.eq_nil_of_length_eq_zero (by omega)
          obtain ⟨other, hrow, -⟩ := hv.exists_of_mem_hits (hh ▸ List.mem_singleton_self row)
          exact ⟨_, _, modernize_of_hit hid hg ho hh hrow⟩
    · exact ⟨_, _, modernize_of_ne hid hg⟩

/-- Where keys are distinct, no row fails. -/
theorem exists_refreshAll (known : List String) : ∀ (found : List Profile) {t : Table}, t.Valid →
    t.KeysUnique → ∃ n, (refreshAll known found t).1 = .ok n
  | [], _, _, _ => ⟨0, rfl⟩
  | row :: found, t, hv, hk => by
    have hrow : ∃ done t', t.refresh known row = .ok (done, t') := by
      unfold refresh
      split
      · rename_i modern _
        exact exists_modernize hv (hv.length_hits_le_one hk modern)
      · exact ⟨_, _, rfl⟩
    obtain ⟨done, t₁, hr⟩ := hrow
    have hm := moves_of_refresh hv hr
    obtain ⟨n, hn⟩ := exists_refreshAll known found (hm.valid hv) (hm.keysUnique hv hk)
    rw [refreshAll_cons_of_ok hr, hn]
    exact ⟨_, rfl⟩

end Table

end ApnRegistry
