import ApnRegistry.Proofs.Batch
import ApnRegistry.Proofs.InMemory
import ApnRegistry.Proofs.Moves
import ApnRegistry.Registry.Query

/-!
# Rows that are put into modern form

`Table.modernize` stores the modern form of one row by looking at the whole table, `Table.refresh`
does so for a row that needs it, and `Table.refreshAll` for one row after the other, until one of
them fails.

Results:
* `Table.Landing`: what becomes of one row (`Table.landing_of_modernize`).
* `Table.moves_of_refreshAll`: the rows that are moved.
* `perform_modernizeRows`: putting rows of a table in memory into modern form refreshes them one by
  one.
-/

namespace ApnRegistry

open Collision

namespace Table

variable {t t' : Table} {old modern row : Profile} {id : RowId} {known : List String} {done : Bool}

/-- Stores the modern form of a row, if it is still as it was, and tells whether it did. A row that
collides is merged onto the row that it hits, and goes; a policy row just goes. -/
def modernize (old modern : Profile) (t : Table) : Except Error (Bool × Table) :=
  match old.id with
  | none => .ok (false, t)
  | some id =>
    if t.get? id ≠ some old then .ok (false, t)
    else
      match hits modern t.rows.profiles, old.owner with
      | [], _ => .ok (true, t.set id modern)
      | _, .dpc => .ok (true, t.remove id)
      | [row], .others => .ok (true, ((t.remove id).settle (mergeOnto row modern).1).2)
      | many, .others => .error (ambiguous many.length modern)

/-- Puts a row into modern form if it needs it, and tells whether it did. -/
def refresh (known : List String) (row : Profile) (t : Table) : Except Error (Bool × Table) :=
  match LegacyCodes.pending known row with
  | some modern => t.modernize row modern
  | none => .ok (false, t)

/-- Puts rows into modern form one by one and counts those that needed it. -/
def refreshAll (known : List String) : List Profile → Table → Except Error Nat × Table
  | [], t => (.ok 0, t)
  | row :: rest, t =>
    match t.refresh known row with
    | .error e => (.error e, t)
    | .ok (done, t) =>
      ((refreshAll known rest t).1.map ((if done then 1 else 0) + ·), (refreshAll known rest t).2)

/-! ## One row -/

theorem modernize_of_id_none (h : old.id = none) : t.modernize old modern = .ok (false, t) := by
  simp only [modernize, h]

theorem modernize_of_ne (hid : old.id = some id) (hg : t.get? id ≠ some old) :
    t.modernize old modern = .ok (false, t) := by
  simp only [modernize, hid]
  rw [if_pos hg]

theorem modernize_of_new (hid : old.id = some id) (hg : t.get? id = some old)
    (hh : hits modern t.rows.profiles = []) :
    t.modernize old modern = .ok (true, t.set id modern) := by
  simp only [modernize, hid, hh]
  rw [if_neg (not_not.mpr hg)]

theorem modernize_of_dpc (hid : old.id = some id) (hg : t.get? id = some old)
    (ho : old.owner = .dpc) (hh : hits modern t.rows.profiles ≠ []) :
    t.modernize old modern = .ok (true, t.remove id) := by
  cases hc : hits modern t.rows.profiles with
  | nil => exact absurd hc hh
  | cons row more =>
    simp only [modernize, hid, hc, ho]
    rw [if_neg (not_not.mpr hg)]

theorem modernize_of_hit {other : RowId} (hid : old.id = some id) (hg : t.get? id = some old)
    (ho : old.owner = .others) (hh : hits modern t.rows.profiles = [row])
    (hrow : row.id = some other) :
    t.modernize old modern = .ok (true, (t.remove id).set other (mergeOnto row modern).1) := by
  have hm : (mergeOnto row modern).1.id = some other := (id_mergeOnto row modern).trans hrow
  simp only [modernize, hid, hh, ho, settle_of_some hm]
  rw [if_neg (not_not.mpr hg)]

theorem modernize_of_many {row' : Profile} {more : List Profile} (hid : old.id = some id)
    (hg : t.get? id = some old) (ho : old.owner = .others)
    (hh : hits modern t.rows.profiles = row :: row' :: more) :
    t.modernize old modern = .error (ambiguous (more.length + 2) modern) := by
  simp only [modernize, hid, hh, ho]
  rw [if_neg (not_not.mpr hg)]
  rfl

/-- What becomes of the row under `id`, stored as `old`, and of its table: the ways in which its modern
form is stored. -/
inductive Landing (t : Table) (id : RowId) (old modern : Profile) : Table → Prop
  /-- It stays where it is, as no other row has its new key. -/
  | stay (free : t.KeyFree id modern.key) : Landing t id old modern (t.set id modern)
  /-- A policy row goes, as another row has its new key. -/
  | yield {other : RowId} {row : Profile} (owner : old.owner = .dpc) (ne : other ≠ id)
      (there : t.get? other = some row) (key : row.key = modern.key) :
      Landing t id old modern (t.remove id)
  /-- An ordinary row goes, and is merged onto the row that has its new key. -/
  | merge {other : RowId} {row : Profile} (owner : old.owner = .others) (ne : other ≠ id)
      (there : t.get? other = some row) (key : row.key = modern.key) :
      Landing t id old modern ((t.remove id).set other (mergeOnto row modern).1)

/-- **A stored row lands**, unless its modern form hits several rows. -/
theorem landing_of_modernize (hv : t.Valid) (hmid : modern.id = old.id) (hid : old.id = some id)
    (hg : t.get? id = some old) (h : t.modernize old modern = .ok (done, t')) :
    done = true ∧ Landing t id old modern t' := by
  have hmid := hmid.trans hid
  have there (row : Profile) (hm : row ∈ hits modern t.rows.profiles) : ∃ other, row.id = some other ∧
      other ≠ id ∧ t.get? other = some row ∧ row.key = modern.key := by
    obtain ⟨other, hrow, hgr, hk, hne⟩ := hv.exists_of_mem_hits hm
    exact ⟨other, hrow, fun heq => hne (heq ▸ hmid), hgr, hk⟩
  cases hh : hits modern t.rows.profiles with
  | nil =>
    rw [modernize_of_new hid hg hh] at h
    cases h
    exact ⟨rfl, .stay (hv.keyFree_of_hits hmid hh)⟩
  | cons row more =>
    obtain ⟨other, hrow, hother, hgr, hk⟩ := there row (hh ▸ List.mem_cons_self)
    cases ho : old.owner with
    | dpc =>
      rw [modernize_of_dpc hid hg ho (by rw [hh]; nofun)] at h
      cases h
      exact ⟨rfl, .yield ho hother hgr hk⟩
    | others =>
      cases more with
      | nil =>
        rw [modernize_of_hit hid hg ho hh hrow] at h
        cases h
        exact ⟨rfl, .merge ho hother hgr hk⟩
      | cons row' more =>
        rw [modernize_of_many hid hg ho hh] at h
        cases h

/-- **A modernized row moves within its own shard.** -/
theorem moves_of_modernize (hv : t.Valid) (hmid : modern.id = old.id)
    (hs : modern.shard = old.shard) (h : t.modernize old modern = .ok (done, t')) :
    Moves (fun s => s = old.shard) t t' := by
  cases hid : old.id with
  | none =>
    rw [modernize_of_id_none hid] at h
    cases h
    exact Moves.refl t
  | some id =>
    by_cases hg : t.get? id = some old
    · have hdrop : Moves (fun s => s = old.shard) t (t.remove id) := Move.moves (.drop hg rfl)
      cases (landing_of_modernize hv hmid hid hg h).2 with
      | stay free => exact Move.moves (.rewrite hg (hmid.trans hid) hs rfl (Or.inr free))
      | yield _ _ _ _ => exact hdrop
      | @merge other row _ ne there key =>
        have hkey : (mergeOnto row modern).1.key = row.key := key_mergeOnto key
        have hg' : (t.remove id).get? other = some row := by
          rw [get?_remove, if_neg ne, there]
        exact hdrop.tail (.rewrite hg' ((id_mergeOnto row modern).trans (hv.id_of_get? there))
          (Profile.shard_eq_of_key_eq hkey) ((Profile.shard_eq_of_key_eq key).trans hs) (Or.inl hkey))
    · rw [modernize_of_ne hid hg] at h
      cases h
      exact Moves.refl t

theorem moves_of_refresh (hv : t.Valid) (h : t.refresh known row = .ok (done, t')) :
    Moves (fun s => s = row.shard) t t' := by
  unfold refresh at h
  split at h
  · rename_i modern hp
    exact moves_of_modernize hv (LegacyCodes.id_of_pending hp) (LegacyCodes.shard_of_pending hp) h
  · cases h
    exact Moves.refl t

/-! ## All rows -/

theorem refreshAll_cons_of_ok {rows : List Profile} (h : t.refresh known row = .ok (done, t')) :
    refreshAll known (row :: rows) t =
      ((refreshAll known rows t').1.map ((if done then 1 else 0) + ·),
        (refreshAll known rows t').2) := by
  simp only [refreshAll, h]

theorem refreshAll_cons_of_error {rows : List Profile} {e : Error}
    (h : t.refresh known row = .error e) : refreshAll known (row :: rows) t = (.error e, t) := by
  simp only [refreshAll, h]

/-- Rows are refreshed if the first one is, and then the others are. -/
theorem exists_of_refreshAll_cons {rows : List Profile} {n : Nat}
    (h : refreshAll known (row :: rows) t = (.ok n, t')) :
    ∃ done t₁ m, t.refresh known row = .ok (done, t₁) ∧ refreshAll known rows t₁ = (.ok m, t') ∧
      n = (if done then 1 else 0) + m := by
  cases hr : t.refresh known row with
  | error e =>
    rw [refreshAll_cons_of_error hr] at h
    cases h
  | ok r =>
    obtain ⟨done, t₁⟩ := r
    rw [refreshAll_cons_of_ok hr] at h
    obtain ⟨hn, rfl⟩ := Prod.mk.inj h
    cases hm : (refreshAll known rows t₁).1 with
    | error e =>
      rw [hm] at hn
      cases hn
    | ok m =>
      rw [hm] at hn
      exact ⟨done, t₁, m, rfl, Prod.ext hm rfl, (Except.ok.inj hn).symm⟩

/-- A row that needs no modern form is left alone, and so is the table. -/
theorem eq_of_refresh (hp : LegacyCodes.pending known row = none)
    (h : t.refresh known row = .ok (done, t')) : t' = t := by
  simp only [refresh, hp] at h
  cases h
  rfl

/-- **Rows that are refreshed move within the shards of those that need it.** -/
theorem moves_of_refreshAll {S : Shard → Prop} : ∀ {rows : List Profile} {t : Table}, t.Valid →
    (∀ row ∈ rows, (LegacyCodes.pending known row).isSome = true → S row.shard) →
    Moves S t (refreshAll known rows t).2
  | [], t, _, _ => Moves.refl t
  | row :: rows, t, hv, hS => by
    cases h : t.refresh known row with
    | error e =>
      rw [refreshAll_cons_of_error h]
      exact Moves.refl t
    | ok r =>
      obtain ⟨done, t₁⟩ := r
      have h₁ : Moves S t t₁ := by
        cases hp : LegacyCodes.pending known row with
        | none =>
          rw [eq_of_refresh hp h]
          exact Moves.refl t
        | some modern =>
          refine (moves_of_refresh hv h).mono fun s hs => ?_
          exact hs ▸ hS row List.mem_cons_self (hp ▸ rfl)
      rw [refreshAll_cons_of_ok h]
      exact h₁.trans (moves_of_refreshAll (h₁.valid hv) fun r hr => hS r (List.mem_cons_of_mem row hr))

theorem Valid.refreshAll (hv : t.Valid) (known : List String) (rows : List Profile) :
    (refreshAll known rows t).2.Valid :=
  (moves_of_refreshAll (S := fun _ => True) hv fun _ _ _ => trivial).valid hv

end Table

/-! ## The calls -/

namespace Registry

variable {s : State Table} {t : Table} {old modern row : Profile} {id : RowId} {shard : List Profile}

theorem modernizing_of_new (hmid : modern.id = some id) (hh : hits modern shard = []) :
    modernizing id old modern shard = .ok [.replace modern] := by
  unfold modernizing
  cases old.owner with
  | dpc => simp only [resolveDpc_of_nil hh]
  | others =>
    simp only [resolve_of_nil hh, hmid, bind, Except.bind, pure, Except.pure, if_true,
      List.nil_append]

theorem modernizing_of_dpc (ho : old.owner = .dpc) (hh : hits modern shard ≠ []) :
    modernizing id old modern shard = .ok [.delete id] := by
  simp only [modernizing, ho, resolveDpc_of_ne_nil hh]

theorem modernizing_of_hit {other : RowId} (ho : old.owner = .others)
    (hh : hits modern shard = [row]) (hrow : row.id = some other) (hne : other ≠ id) :
    modernizing id old modern shard = .ok [.delete id, .replace (mergeOnto row modern).1] := by
  have hm : (mergeOnto row modern).1.id ≠ some id := by
    rw [id_mergeOnto, hrow]
    exact fun heq => hne (Option.some.inj heq)
  simp only [modernizing, ho, resolve_of_singleton hh, bind, Except.bind, pure, Except.pure]
  rw [if_neg hm]
  rfl

theorem modernizing_of_many {row' : Profile} {more : List Profile} (ho : old.owner = .others)
    (hh : hits modern shard = row :: row' :: more) :
    modernizing id old modern shard = .error (ambiguous (more.length + 2) modern) := by
  simp only [modernizing, ho, resolve_of_many hh, bind, Except.bind]

/-- The batch for one row does what the table does. -/
theorem modernizing_modernize (hv : t.Valid) (hid : old.id = some id) (hmid : modern.id = some id)
    (hg : t.get? id = some old) (hs : hits modern shard = hits modern t.rows.profiles) :
    (∃ e, modernizing id old modern shard = .error e ∧ t.modernize old modern = .error e) ∨
    ∃ batch t' done, modernizing id old modern shard = .ok batch ∧ t.apply batch = .ok (t', done) ∧
      t.modernize old modern = .ok (true, t') := by
  have hl : (t.get? id).isSome := by
    rw [hg]
    rfl
  cases hh : hits modern t.rows.profiles with
  | nil =>
    exact Or.inr ⟨_, t.set id modern, { replaced := 1 }, modernizing_of_new hmid (hs.trans hh),
      Table.steps_cons_of_ok [] (Table.step_replace hmid hl), Table.modernize_of_new hid hg hh⟩
  | cons row more =>
    have hne : hits modern t.rows.profiles ≠ [] := by
      rw [hh]
      exact List.cons_ne_nil row more
    cases ho : old.owner with
    | dpc =>
      exact Or.inr ⟨_, t.remove id, { deleted := 1 }, modernizing_of_dpc ho (hs ▸ hne),
        Table.steps_cons_of_ok [] (Table.step_delete hl), Table.modernize_of_dpc hid hg ho hne⟩
    | others =>
      cases more with
      | cons row' more =>
        exact Or.inl ⟨_, modernizing_of_many ho (hs.trans hh),
          Table.modernize_of_many hid hg ho hh⟩
      | nil =>
        obtain ⟨other, hrow, hgr, -, hother⟩ :=
          hv.exists_of_mem_hits (hh ▸ List.mem_singleton_self row)
        have hother : other ≠ id := fun heq => hother (heq ▸ hmid)
        have hm : (mergeOnto row modern).1.id = some other := (id_mergeOnto row modern).trans hrow
        have hlr : ((t.remove id).get? other).isSome := by
          rw [Table.get?_remove, if_neg hother, hgr]
          rfl
        refine Or.inr ⟨_, (t.remove id).set other (mergeOnto row modern).1,
          { replaced := 1, deleted := 1 }, modernizing_of_hit ho (hs.trans hh) hrow hother, ?_,
          Table.modernize_of_hit hid hg ho hh hrow⟩
        exact (Table.steps_cons_of_ok _ (Table.step_delete hl)).trans
          (Table.steps_cons_of_ok [] (Table.step_replace hm hlr))

/-- The modern form is stored as the table stores it. -/
theorem perform_writeBack (hv : s.store.Valid) (hmid : modern.id = old.id)
    (hs : modern.shard = old.shard) :
    (writeBack old modern).perform s = (edits (Table.modernize old modern)).perform s := by
  unfold writeBack
  split
  · rename_i hid
    rw [perform_edits_of_ok (Table.modernize_of_id_none hid)]
    rfl
  · rename_i id hid
    rw [Action.perform_bind, perform_fetch]
    show (if s.store.get? id ≠ some old then _ else _ : Action Table Bool).perform s = _
    by_cases hg : s.store.get? id = some old
    · have hhits : hits modern (s.store.scan (inShards [old.shard]) .idAscending) =
          hits modern s.store.rows.profiles := hits_filter fun q _ hk => by
        rw [holds_inShards, List.mem_singleton, Profile.shard_eq_of_key_eq hk, hs]
      rw [if_neg (not_not.mpr hg), Action.perform_bind, perform_rows]
      show (decided _ >>= _ : Action Table Bool).perform s = _
      rw [Action.perform_bind, Action.perform_decided]
      rcases modernizing_modernize hv hid (hmid.trans hid) hg hhits with
        ⟨e, hbatch, hedit⟩ | ⟨batch, t', done, hbatch, happly, hedit⟩
      · rw [hbatch, perform_edits_of_error hedit]
      · rw [hbatch, perform_edits_of_ok hedit]
        show (write batch >>= _ : Action Table Bool).perform s = _
        rw [Action.perform_bind, perform_write happly]
        rfl
    · rw [if_pos hg, perform_edits_of_ok (Table.modernize_of_ne hid hg)]
      rfl

/-- A row is put into modern form as the table does it. -/
theorem perform_refresh (known : List String) (row : Profile) (hv : s.store.Valid) :
    (match LegacyCodes.pending known row with
      | some modern => writeBack row modern
      | none => pure false : Action Table Bool).perform s =
    (edits (Table.refresh known row)).perform s := by
  cases hp : LegacyCodes.pending known row with
  | none =>
    have hr : s.store.refresh known row = .ok (false, s.store) := by
      simp only [Table.refresh, hp]
    rw [perform_edits_of_ok hr]
    rfl
  | some modern =>
    have hr : Table.refresh known row = Table.modernize row modern := by
      funext t
      simp only [Table.refresh, hp]
    rw [hr]
    exact perform_writeBack hv (LegacyCodes.id_of_pending hp) (LegacyCodes.shard_of_pending hp)

theorem modernizeRows_cons {σ : Type} [RowStore σ] (known : List String) (row : Profile)
    (rest : List Profile) : (modernizeRows known (row :: rest) : Action σ Nat) =
      (match LegacyCodes.pending known row with
      | some modern => writeBack row modern
      | none => pure false) >>= fun done => do
        let others ← modernizeRows known rest
        return (if done then 1 else 0) + others := by
  rw [modernizeRows]
  cases LegacyCodes.pending known row with
  | none => rfl
  | some modern => rfl

/-- **Rows of a table in memory are put into modern form one by one.** -/
theorem perform_modernizeRows (known : List String) : ∀ (found : List Profile) {s : State Table},
    s.store.Valid → (modernizeRows known found).perform s =
      (onStore (Table.refreshAll known found)).perform s
  | [], _, _ => rfl
  | row :: found, s, hv => by
    rw [modernizeRows_cons, Action.perform_bind, perform_refresh known row hv,
      Action.perform_onStore]
    cases hr : s.store.refresh known row with
    | error e => rw [perform_edits_of_error hr, Table.refreshAll_cons_of_error hr]
    | ok r =>
      obtain ⟨done, t⟩ := r
      have ht : t.Valid := (Table.moves_of_refresh hv hr).valid hv
      rw [perform_edits_of_ok hr, Table.refreshAll_cons_of_ok hr]
      show (modernizeRows known found >>= _ : Action Table Nat).perform { s with store := t } = _
      rw [Action.perform_bind, perform_modernizeRows known found ht, Action.perform_onStore]
      rcases hall : t.refreshAll known found with ⟨result, t'⟩
      cases result with
      | error e => rfl
      | ok n => rfl

end Registry

end ApnRegistry
