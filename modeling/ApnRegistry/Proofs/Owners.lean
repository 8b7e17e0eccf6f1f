import ApnRegistry.Proofs.Deletion
import ApnRegistry.Proofs.Insertion
import ApnRegistry.Proofs.Modernize
import ApnRegistry.Proofs.Restore
import ApnRegistry.Proofs.Revision

/-!
# The rows of one owner

`Table.only o` is the table without the rows of other owners. A way to change tables is *local* to an
owner when it makes no difference whether those rows are there: it gives the same result, and leaves
the same rows of the owner under the same ids.

What one owner's profile hits is of the same owner, and so everything that calls do to a table on
behalf of one owner is local to that owner: `local_enterAll`, `local_updateWhere`,
`local_deleteWhere`, `refreshAll_only` and, for the owner of the ordinary rows, `local_restored`.
-/

namespace ApnRegistry

open Collision

namespace Table

variable {t t' : Table} {o : Owner} {p row : Profile} {id : RowId} {α : Type}

/-- The table without the rows of other owners. -/
def only (o : Owner) (t : Table) : Table := { t with rows := t.rows.filter (·.2.owner == o) }

theorem Valid.only (h : t.Valid) (o : Owner) : (t.only o).Valid := h.filter _

theorem Valid.get?_only (h : t.Valid) (o : Owner) (id : RowId) :
    (t.only o).get? id = (t.get? id).filter (·.owner == o) :=
  h.sorted.get?_filter (·.owner == o) id

/-- The rows of the owner stay. -/
theorem Valid.get?_only_eq_some (h : t.Valid) :
    (t.only o).get? id = some p ↔ t.get? id = some p ∧ p.owner = o := by
  rw [h.get?_only, Option.filter_eq_some_iff, beq_iff_eq]

theorem profiles_only (o : Owner) (t : Table) :
    (t.only o).rows.profiles = t.rows.profiles.filter (·.owner == o) :=
  Rows.profiles_filter t.rows (·.owner == o)

theorem hits_only (ho : p.owner = o) (t : Table) :
    hits p (t.only o).rows.profiles = hits p t.rows.profiles := by
  rw [profiles_only]
  exact hits_filter fun q _ hk => beq_iff_eq.mpr ((Profile.owner_eq_of_key_eq hk).trans ho)

theorem scan_only {q : Predicate} (hq : ∀ p, q.holds p = true → p.owner = o) (order : Order)
    (t : Table) : (t.only o).scan q order = t.scan q order := by
  refine scan_congr ?_ order
  rw [scan_idAscending, scan_idAscending, profiles_only, List.filter_filter]
  refine List.filter_congr fun p _ => ?_
  by_cases hp : q.holds p = true
  · rw [hp, beq_iff_eq.mpr (hq p hp)]
    rfl
  · rw [Bool.not_eq_true _ |>.mp hp]
    rfl

theorem matching_only {q : Predicate} (hq : ∀ p, q.holds p = true → p.owner = o) (t : Table) :
    (t.only o).matching q = t.matching q := by
  rw [matching, matching, scan_only hq]

/-- The rows of an owner are the same iff every one of them reads the same. -/
theorem Valid.rows_only_eq_iff (h : t.Valid) (h' : t'.Valid) :
    (t'.only o).rows = (t.only o).rows ↔
      ∀ id p, p.owner = o → (t'.get? id = some p ↔ t.get? id = some p) := by
  constructor
  · intro heq id p ho
    have hget : (t'.only o).get? id = (t.only o).get? id := congrArg (Rows.get? · id) heq
    constructor
    · intro hp
      have hp := h'.get?_only_eq_some.mpr ⟨hp, ho⟩
      exact (h.get?_only_eq_some.mp (hget ▸ hp)).1
    · intro hp
      have hp := h.get?_only_eq_some.mpr ⟨hp, ho⟩
      exact (h'.get?_only_eq_some.mp (hget ▸ hp)).1
  · intro hall
    refine (h'.only o).sorted.ext (h.only o).sorted fun id => Option.ext fun p => ?_
    show (t'.only o).get? id = some p ↔ (t.only o).get? id = some p
    rw [h'.get?_only_eq_some, h.get?_only_eq_some]
    exact and_congr_left fun ho => hall id p ho

/-- Moves of rows of other owners leave those of an owner as they are. -/
theorem Moves.rows_only_eq {S : Shard → Prop} (hm : Moves S t t') (hv : t.Valid)
    (hS : ∀ shard, S shard → shard.owner ≠ o) : (t'.only o).rows = (t.only o).rows :=
  (hv.rows_only_eq_iff (hm.valid hv)).mpr fun _ p ho => hm.get?_iff hv fun hs => hS p.shard hs ho

/-! ## Single operations -/

theorem Valid.only_push (h : t.Valid) (ho : p.owner = o) :
    (t.push p).2.only o = ((t.only o).push p).2 := by
  have hrows : (t.push p).2.rows.filter (·.2.owner == o) = ((t.only o).push p).2.rows :=
    h.sorted.filter_put_of_pos (f := (·.owner == o)) (beq_iff_eq.mpr ho)
  exact congrArg (Table.mk · (t.nextId + 1)) hrows

theorem Valid.only_set (h : t.Valid) (ho : p.owner = o) :
    (t.set id p).only o = (t.only o).set id p := by
  have hrows : (t.rows.put id p).filter (·.2.owner == o) =
      Rows.put (t.rows.filter (·.2.owner == o)) id p :=
    h.sorted.filter_put_of_pos (f := (·.owner == o)) (beq_iff_eq.mpr ho)
  exact congrArg (Table.mk · t.nextId) hrows

theorem only_remove (o : Owner) (t : Table) (id : RowId) :
    (t.remove id).only o = (t.only o).remove id :=
  congrArg (Table.mk · t.nextId) (Rows.filter_erase t.rows id _)

/-! ## Local changes -/

/-- The result, as far as the rows of the owner go. -/
def seen (o : Owner) (r : Except Error (α × Table)) : Except Error (α × Table) :=
  r.map fun r => (r.1, r.2.only o)

/-- The rows of other owners make no difference for those of `o` and for the result. -/
def Local (o : Owner) (f : Table → Except Error (α × Table)) : Prop :=
  ∀ t, t.Valid → f (t.only o) = seen o (f t)

/-- A row under an id keeps its owner while rows of that owner move. -/
theorem Moves.owner_of_get? (hm : Moves (fun s => s.owner = o) t t') (hv : t.Valid)
    (ho : ∀ p, t.get? id = some p → p.owner = o) (hp : t'.get? id = some p) : p.owner = o := by
  by_contra hne
  exact hne (ho p ((hm.get?_iff hv hne).mp hp))

/-! ### Inserts -/

theorem enter_only (hv : t.Valid) (hid : p.id = none) (ho : p.owner = o) :
    (t.only o).enter p = seen o (t.enter p) := by
  have hhits := hits_only ho t
  cases hh : hits p t.rows.profiles with
  | nil =>
    rw [enter_of_new hid hh, enter_of_new hid (hhits.trans hh), ← hv.only_push ho]
    rfl
  | cons row more =>
    cases howner : p.owner with
    | dpc =>
      have hne : hits p t.rows.profiles ≠ [] := by
        rw [hh]
        nofun
      rw [enter_of_rejected howner hne, enter_of_rejected howner (hhits ▸ hne)]
      rfl
    | others =>
      cases more with
      | nil =>
        obtain ⟨id, hrow, -, hk, -⟩ := hv.exists_of_mem_hits (hh ▸ List.mem_singleton_self row)
        have hm : (mergeOnto row p).1.owner = o :=
          (Profile.owner_eq_of_key_eq ((key_mergeOnto hk).trans hk)).trans ho
        rw [enter_of_hit howner hh hrow, enter_of_hit howner (hhits.trans hh) hrow, ← hv.only_set hm]
        rfl
      | cons row' more =>
        rw [enter_of_error howner (resolve_of_many hh),
          enter_of_error howner (resolve_of_many (hhits.trans hh))]
        rfl

theorem local_enterAll {ps : List Profile} (hid : ∀ p ∈ ps, p.id = none)
    (ho : ∀ p ∈ ps, p.owner = o) : Local o (enterAll ps) := by
  induction ps with
  | nil => exact fun t _ => rfl
  | cons p ps ih =>
    intro t hv
    have hp := hid p List.mem_cons_self
    have honly := enter_only hv hp (ho p List.mem_cons_self)
    have ih := ih (fun q hq => hid q (List.mem_cons_of_mem p hq))
      fun q hq => ho q (List.mem_cons_of_mem p hq)
    cases henter : t.enter p with
    | error e =>
      rw [henter] at honly
      rw [enterAll_cons_of_error ps henter, enterAll_cons_of_error ps honly]
      rfl
    | ok r =>
      obtain ⟨x, t₁⟩ := r
      rw [henter] at honly
      have ih := ih t₁ ((moves_of_enter hv hp henter).valid hv)
      cases hall : t₁.enterAll ps with
      | error e =>
        rw [hall] at ih
        rw [enterAll_cons_of_error_tail henter hall, enterAll_cons_of_error_tail honly ih]
        rfl
      | ok r =>
        rw [hall] at ih
        rw [enterAll_cons_of_ok henter hall, enterAll_cons_of_ok honly ih]
        rfl

/-! ### Updates -/

theorem revise_only (changes : Update) (hv : t.Valid) (ho : ∀ p, t.get? id = some p → p.owner = o) :
    (t.only o).revise changes id = seen o (t.revise changes id) := by
  cases hp : t.get? id with
  | none =>
    have hp' : (t.only o).get? id = none := by rw [hv.get?_only, hp]; rfl
    rw [revise_of_none hp, revise_of_none hp']
    rfl
  | some p =>
    have hpo := ho p hp
    have hp' : (t.only o).get? id = some p := hv.get?_only_eq_some.mpr ⟨hp, hpo⟩
    have hid := hv.id_of_get? hp
    have hmoved : (changes.applied p).owner = o := hpo
    have hhits := hits_only hmoved t
    rcases resolveUpdate_cases p changes t.rows.profiles with hh | ⟨row, hh, hothers⟩ | ⟨e, hr⟩
    · rw [revise_of_new hp hid hh, revise_of_new hp' hid (hhits.trans hh), ← hv.only_set hmoved]
      rfl
    · obtain ⟨other, hrow, -, hk, -⟩ := hv.exists_of_mem_hits (hh ▸ List.mem_singleton_self row)
      have hu : (updateOnto row (changes.applied p) changes).1.owner = o :=
        (Profile.owner_eq_of_key_eq ((key_updateOnto hk).trans hk)).trans hmoved
      rw [revise_of_hit hp hid hothers hh hrow, revise_of_hit hp' hid hothers (hhits.trans hh) hrow,
        ← only_remove, ← (hv.remove id).only_set hu]
      rfl
    · rw [revise_of_error hp hr, revise_of_error hp' ((resolveUpdate_congr hhits).trans hr)]
      rfl

theorem reviseAll_only (changes : Update) : ∀ {ids : List RowId} {t : Table}, t.Valid →
    (∀ id ∈ ids, ∀ p, t.get? id = some p → p.owner = o) →
    reviseAll changes ids (t.only o) = seen o (reviseAll changes ids t)
  | [], _, _, _ => rfl
  | id :: ids, t, hv, ho => by
    have honly := revise_only changes hv (ho id List.mem_cons_self)
    cases hr : t.revise changes id with
    | error e =>
      rw [hr] at honly
      rw [reviseAll_cons_of_error ids hr, reviseAll_cons_of_error ids honly]
      rfl
    | ok r =>
      obtain ⟨n, t₁⟩ := r
      rw [hr] at honly
      have hone : reviseAll changes [id] t = .ok (n + 0, t₁) := reviseAll_cons_of_ok hr rfl
      have hm : Moves (fun s => s.owner = o) t t₁ := moves_of_reviseAll hv (fun other hother p hp => by
        obtain rfl := List.mem_singleton.mp hother
        exact ho other List.mem_cons_self p hp) hone
      have ih := reviseAll_only changes (hm.valid hv) fun other hother p hp =>
        hm.owner_of_get? hv (ho other (List.mem_cons_of_mem id hother)) hp
      cases hall : reviseAll changes ids t₁ with
      | error e =>
        rw [hall] at ih
        rw [reviseAll_cons_of_error_tail hr hall, reviseAll_cons_of_error_tail honly ih]
        rfl
      | ok r =>
        rw [hall] at ih
        rw [reviseAll_cons_of_ok hr hall, reviseAll_cons_of_ok honly ih]
        rfl

theorem local_updateWhere {q : Predicate} {changes : Update}
    (hq : ∀ p, q.holds p = true → p.owner = o) : Local o (updateWhere q changes) := by
  intro t hv
  have ho : ∀ id ∈ (t.matching q).filterMap (·.id), ∀ p, t.get? id = some p → p.owner = o := by
    intro id hid p hp
    obtain ⟨r, hm, hg⟩ := hv.exists_of_mem_matching hid
    rw [hp, Option.some.injEq] at hg
    exact hg ▸ hq r (mem_matching.mp hm).2.1
  have hall := reviseAll_only changes hv ho
  rw [updateWhere, updateWhere, matching_only hq, hall]
  cases reviseAll changes ((t.matching q).filterMap (·.id)) t with
  | error e =>
    show (if e.kind = .conflict then _ else _) = seen o (if e.kind = .conflict then _ else _)
    split
    · rfl
    · rfl
  | ok r => rfl

/-! ### Deletions -/

theorem bury_only {mark : EditStatus} (hv : t.Valid) (hid : p.id = some id) (ho : p.owner = o) :
    (t.only o).bury mark p = (t.bury mark p).only o := by
  have hm : ({ p with status := mark } : Profile).owner = o := ho
  rw [bury_of_id hid, bury_of_id hid]
  split
  · exact (only_remove o t id).symm
  · exact (hv.only_set hm).symm

theorem foldl_bury_only {mark : EditStatus} : ∀ {ps : List Profile} {t : Table}, t.Valid →
    t.Lists ps → (∀ p ∈ ps, p.owner = o) →
    ps.foldl (bury mark) (t.only o) = (ps.foldl (bury mark) t).only o
  | [], _, _, _, _ => rfl
  | p :: ps, t, hv, hl, ho => by
    obtain ⟨id, hid, hp⟩ := hl.live p List.mem_cons_self
    rw [List.foldl_cons, List.foldl_cons, bury_only hv hid (ho p List.mem_cons_self)]
    exact foldl_bury_only ((move_bury hid hp).valid hv) (hl.tail_bury mark)
      fun q hq => ho q (List.mem_cons_of_mem p hq)

theorem local_deleteWhere {q : Predicate} {mark : EditStatus}
    (hq : ∀ p, q.holds p = true → p.owner = o) : Local o (deleteWhere q mark) := by
  intro t hv
  rw [deleteWhere, deleteWhere, matching_only hq,
    foldl_bury_only hv (hv.lists_matching q) fun p hp => hq p (mem_matching.mp hp).2.1]
  rfl

/-! ### Modern forms -/

theorem modernize_only {old modern : Profile} (hv : t.Valid)
    (hs : modern.shard = old.shard) (ho : old.owner = o) :
    (t.only o).modernize old modern = seen o (t.modernize old modern) := by
  have hmo : modern.owner = o := (congrArg Shard.owner hs).trans ho
  have hhits := hits_only hmo t
  cases hid : old.id with
  | none =>
    rw [modernize_of_id_none hid, modernize_of_id_none hid]
    rfl
  | some id =>
    by_cases hg : t.get? id = some old
    · have hg' : (t.only o).get? id = some old := hv.get?_only_eq_some.mpr ⟨hg, ho⟩
      cases hh : hits modern t.rows.profiles with
      | nil =>
        rw [modernize_of_new hid hg hh, modernize_of_new hid hg' (hhits.trans hh), ← hv.only_set hmo]
        rfl
      | cons row more =>
        cases howner : old.owner with
        | dpc =>
          have hne : hits modern t.rows.profiles ≠ [] := by
            rw [hh]
            nofun
          rw [modernize_of_dpc hid hg howner hne, modernize_of_dpc hid hg' howner (hhits ▸ hne),
            ← only_remove]
          rfl
        | others =>
          cases more with
          | nil =>
            obtain ⟨other, hrow, -, hk, -⟩ := hv.exists_of_mem_hits (hh ▸ List.mem_singleton_self row)
            have hm : (mergeOnto row modern).1.owner = o :=
              (Profile.owner_eq_of_key_eq ((key_mergeOnto hk).trans hk)).trans hmo
            rw [modernize_of_hit hid hg howner hh hrow,
              modernize_of_hit hid hg' howner (hhits.trans hh) hrow, ← only_remove,
              ← (hv.remove id).only_set hm]
            rfl
          | cons row' more =>
            rw [modernize_of_many hid hg howner hh,
              modernize_of_many hid hg' howner (hhits.trans hh)]
            rfl
    · have hg' : (t.only o).get? id ≠ some old := fun h => hg (hv.get?_only_eq_some.mp h).1
      rw [modernize_of_ne hid hg, modernize_of_ne hid hg']
      rfl

theorem refresh_only (known : List String) (hv : t.Valid) (ho : row.owner = o) :
    (t.only o).refresh known row = seen o (t.refresh known row) := by
  cases hp : LegacyCodes.pending known row with
  | none =>
    simp only [refresh, hp]
    rfl
  | some modern =>
    simp only [refresh, hp]
    exact modernize_only hv (LegacyCodes.shard_of_pending hp) ho

theorem refreshAll_only (known : List String) : ∀ {rows : List Profile} {t : Table}, t.Valid →
    (∀ row ∈ rows, row.owner = o) → refreshAll known rows (t.only o) =
      ((refreshAll known rows t).1, (refreshAll known rows t).2.only o)
  | [], _, _, _ => rfl
  | row :: rows, t, hv, ho => by
    have honly := refresh_only known hv (ho row List.mem_cons_self)
    cases hr : t.refresh known row with
    | error e =>
      rw [hr] at honly
      rw [refreshAll_cons_of_error hr, refreshAll_cons_of_error honly]
    | ok r =>
      obtain ⟨done, t₁⟩ := r
      rw [hr] at honly
      have ih := refreshAll_only known ((moves_of_refresh hv hr).valid hv)
        fun q hq => ho q (List.mem_cons_of_mem row hq)
      rw [refreshAll_cons_of_ok hr, refreshAll_cons_of_ok honly, ih]

end Table

/-! ### Restores -/

namespace Restore

variable {e : Extent} {factory rows survivors : List Profile} {engine : Mvno.Engine}

theorem owner_of_contains {p : Profile} (h : e.contains p = true) : p.owner = .others := by
  rw [Extent.contains, Bool.and_eq_true] at h
  exact beq_iff_eq.mp h.1

theorem owner_of_drops {p : Profile} (h : e.drops p = true) : p.owner = .others := by
  rw [Extent.drops, Bool.and_eq_true, Bool.and_eq_true] at h
  exact owner_of_contains h.1.1

/-- Leaving policy rows out does not matter to what only ordinary rows meet. -/
theorem filter_others {f : Profile → Bool} (hf : ∀ p, f p = true → p.owner = .others)
    (rows : List Profile) : (rows.filter (·.owner == .others)).filter f = rows.filter f := by
  rw [List.filter_filter]
  refine List.filter_congr fun p _ => ?_
  by_cases hp : f p = true
  · rw [hp, beq_iff_eq.mpr (hf p hp)]
    rfl
  · rw [(Bool.not_eq_true _).mp hp]
    rfl

theorem findSome?_others {β : Type} {f : Profile → Option β}
    (hf : ∀ p, (f p).isSome = true → p.owner = .others) (rows : List Profile) :
    (rows.filter (·.owner == .others)).findSome? f = rows.findSome? f := by
  induction rows with
  | nil => rfl
  | cons p rows ih =>
    rw [List.filter_cons, List.findSome?_cons]
    cases hp : f p with
    | none =>
      rw [← ih]
      split
      · rw [List.findSome?_cons, hp]
      · rfl
    | some b =>
      have ho : (p.owner == .others) = true := beq_iff_eq.mpr (hf p (by rw [hp]; rfl))
      rw [if_pos ho, List.findSome?_cons, hp]

theorem place_others (s : Seeding) (p : Profile) :
    s.place (survivors.filter (·.owner == .others)) (seed p) = s.place survivors (seed p) := by
  have hhits : hits (seed p) (survivors.filter (·.owner == .others)) = hits (seed p) survivors :=
    hits_filter fun q _ hk => beq_iff_eq.mpr (Profile.owner_eq_of_key_eq hk)
  rw [Seeding.place, Seeding.place, resolve_congr hhits]

theorem foldlM_place_others (survivors : List Profile) : ∀ {seeds : List Profile} {s : Seeding},
    (∀ q ∈ seeds, ∃ p, q = seed p) →
    seeds.foldlM (Seeding.place (survivors.filter (·.owner == .others))) s =
      seeds.foldlM (Seeding.place survivors) s
  | [], _, _ => rfl
  | q :: seeds, s, hs => by
    obtain ⟨p, rfl⟩ := hs q List.mem_cons_self
    rw [List.foldlM_cons, List.foldlM_cons, place_others]
    refine congrArg _ (funext fun s' => ?_)
    exact foldlM_place_others survivors fun q' hq' => hs q' (List.mem_cons_of_mem _ hq')

theorem filter_others_survivors : (rows.filter (·.owner == .others)).filter (!e.drops ·) =
    (rows.filter (!e.drops ·)).filter (·.owner == .others) := by
  rw [List.filter_filter, List.filter_filter]
  exact List.filter_congr fun p _ => Bool.and_comm ..

/-- Policy rows do not matter to the seeds. -/
theorem foldlM_seeds_others : (seeds e factory).foldlM
    (Seeding.place ((rows.filter (·.owner == .others)).filter (!e.drops ·))) {} =
      (seeds e factory).foldlM (Seeding.place (rows.filter (!e.drops ·))) {} := by
  rw [filter_others_survivors]
  refine foldlM_place_others _ fun q hq => ?_
  obtain ⟨p, -, -, hp⟩ := mem_seeds.mp hq
  exact ⟨p, hp⟩

theorem seeded_others {s : Seeding} :
    Seeded e factory (rows.filter (·.owner == .others)) s ↔ Seeded e factory rows s := by
  rw [Seeded, Seeded, foldlM_seeds_others]

/-- **A restore is planned from the ordinary rows.** -/
theorem prepare_others : prepare engine (rows.filter (·.owner == .others)) factory e =
    prepare engine rows factory e := by
  have hrefusal : refusal engine (rows.filter (·.owner == .others)) factory e =
      refusal engine rows factory e := by
    rw [refusal, refusal, findSome?_others]
    intro p hp
    unfold Extent.refusalOfRow at hp
    split at hp
    · cases hp
    · split at hp
      · rename_i h
        exact beq_iff_eq.mp (Bool.and_eq_true_iff.mp h).1
      · cases hp
  rw [prepare, prepare, hrefusal, plan, plan, foldlM_seeds_others,
    filter_others (fun _ => owner_of_drops), filter_others_survivors,
    filter_others (fun _ => owner_of_contains)]

end Restore

namespace Table

open Restore

variable {t : Table} {e : Extent} {factory : List Profile} {engine : Mvno.Engine}

theorem removeAll_only (o : Owner) : ∀ (gone : List RowId) (t : Table),
    (t.removeAll gone).only o = (t.only o).removeAll gone
  | [], _ => rfl
  | id :: gone, t => by
    show ((t.remove id).removeAll gone).only o = ((t.only o).remove id).removeAll gone
    rw [removeAll_only o gone, only_remove]

theorem pushAll_only {o : Owner} : ∀ {fresh : List Profile} {t : Table}, t.Valid →
    (∀ p ∈ fresh, p.owner = o) → (t.pushAll fresh).only o = (t.only o).pushAll fresh
  | [], _, _, _ => rfl
  | p :: fresh, t, hv, ho => by
    show ((t.push p).2.pushAll fresh).only o = ((t.only o).push p).2.pushAll fresh
    rw [pushAll_only (hv.push p) fun q hq => ho q (List.mem_cons_of_mem p hq),
      hv.only_push (ho p List.mem_cons_self)]

theorem reseeded_only {waiting : List Profile} (hv : t.Valid) (ho : ∀ p ∈ waiting, p.owner = .others) :
    (t.only .others).reseeded e waiting = (t.reseeded e waiting).only .others := by
  have hids : droppedIds e (t.only .others).rows.profiles = droppedIds e t.rows.profiles := by
    rw [droppedIds, droppedIds, profiles_only, filter_others fun _ => owner_of_drops]
  rw [reseeded, reseeded, hids, ← removeAll_only, pushAll_only (hv.removeAll _) ho]

/-- **Restores are local to the ordinary rows.** -/
theorem local_restored : Local .others (restored engine factory e) := by
  intro t hv
  have hprepare : prepare engine (t.only .others).rows.profiles factory e =
      prepare engine t.rows.profiles factory e := by
    rw [profiles_only, prepare_others]
  cases hp : prepare engine t.rows.profiles factory e with
  | error err =>
    rw [restored_of_error hp, restored_of_error (hprepare.trans hp)]
    rfl
  | ok plan =>
    obtain ⟨hrefusal, s, hs, rfl⟩ := prepare_eq_ok.mp hp
    have hs' : Seeded e factory (t.only .others).rows.profiles s := by
      rw [profiles_only]
      exact seeded_others.mpr hs
    obtain ⟨hrefusal', -⟩ := prepare_eq_ok.mp (hprepare.trans hp)
    have hplan := Except.ok.inj
      ((prepare_eq_ok.mpr ⟨hrefusal', s, hs', rfl⟩).symm.trans (hprepare.trans hp))
    rw [(restored_eq_ok hv).mpr ⟨hrefusal, s, hs, rfl, rfl⟩,
      (restored_eq_ok (hv.only .others)).mpr ⟨hrefusal', s, hs', rfl, rfl⟩, hplan,
      reseeded_only hv fun w hw => ((hv.sound_of_seeded hs).waiting w hw).2]
    rfl

end Table

end ApnRegistry
