import ApnRegistry.Proofs.Batch
import ApnRegistry.Proofs.InMemory
import ApnRegistry.Proofs.Moves
import ApnRegistry.Registry.Restoring

/-!
# Restores

Whether a row lies in the extent of a restore is settled by its key, and every factory profile that
is seeded would lie in it (`contains_of_key_eq`, `contains_seed`). So a seed that collides meets a
row with recorded intent, which it leaves alone: a plan overwrites nothing. It takes rows of the
extent out and enters profiles with new keys.

Results:
* `Seeding.place_cases`: what becomes of one seed; `Seeded.induction`: what is true of all of them.
* `Seeding.Sound.place`: what holds of the seeds placed so far, one seed later.
* `Table.restored_eq_ok`: when a restore succeeds, and the table it leads to.
* `Table.moves_of_restored`: the rows that a restore moves.
* `perform_restoreRows`: a restore of a table in memory carries its plan out at the first attempt.
-/

namespace ApnRegistry

open Collision

namespace Restore

variable {e : Extent} {p q row : Profile} {factory survivors rows : List Profile}
  {s s' : Seeding} {engine : Mvno.Engine}

/-! ## The extent -/

/-- Rows with equal keys are alike to a subscription. -/
theorem holds_ofSubscription_congr {sub : Subscription} {operator : Option String}
    (h : p.key = q.key) : (Selection.ofSubscription sub operator).holds p =
      (Selection.ofSubscription sub operator).holds q := by
  rw [Bool.eq_iff_iff, Selection.holds_ofSubscription, Selection.holds_ofSubscription,
    Profile.subscription_eq_of_key_eq h, Profile.numeric_eq_of_key_eq h]

/-- A SIM meets the constraints of profiles with equal keys alike. -/
theorem isMet_congr {sim : Sim} (h : p.key = q.key) : Mvno.isMet p sim = Mvno.isMet q sim := by
  simp only [Mvno.isMet, Profile.mvnoKind_eq_of_key_eq h, Profile.mvnoData_eq_of_key_eq h]

/-- Profiles with equal keys are open to the same SIMs. -/
theorem admits_congr {sim : Sim} (h : p.key = q.key) : Mvno.admits p sim = Mvno.admits q sim := by
  rw [Mvno.admits, Mvno.admits, Profile.hasMvno, Profile.hasMvno, Profile.mvnoKind_eq_of_key_eq h,
    isMet_congr h]

/-- **Rows with equal keys lie in the same extents.** -/
theorem contains_of_key_eq (e : Extent) (h : p.key = q.key) : e.contains p = e.contains q := by
  rw [Extent.contains, Extent.contains, Profile.owner_eq_of_key_eq h]
  cases e.subscription with
  | none => rfl
  | some sub => simp only [holds_ofSubscription_congr h, admits_congr h]

/-- A seed belongs to a subscription by its operator, or because the subscription is the mark of unpinned
rows. -/
theorem holds_ofSubscription_seed {sub : Subscription} {operator : Option String} :
    (Selection.ofSubscription sub operator).holds (seed p) = true ↔
      sub = .unpinned ∨ operator = some p.numeric := by
  rw [Selection.holds_ofSubscription, eq_comm (b := sub)]
  exact or_congr_right (and_iff_right rfl)

/-- **What a restore seeds lies in its extent.** -/
theorem contains_seed (h : e.admits p = true) : e.contains (seed p) = true := by
  unfold Extent.contains
  unfold Extent.admits at h
  cases hs : e.subscription with
  | none => rfl
  | some sub =>
    rw [hs] at h
    obtain ⟨hop, hadm⟩ := Bool.and_eq_true_iff.mp h
    have hholds : (Selection.ofSubscription sub e.sim.operator).holds (seed p) = true :=
      holds_ofSubscription_seed.mpr (Or.inr (beq_iff_eq.mp hop))
    have hadm : Mvno.admits (seed p) e.sim = true := hadm
    show (true && ((Selection.ofSubscription sub e.sim.operator).holds (seed p) &&
      Mvno.admits (seed p) e.sim)) = true
    rw [hholds, hadm]
    rfl

/-- The shards in which the rows of an extent lie. -/
def Extent.Spans (e : Extent) (shard : Shard) : Prop :=
  shard.owner = .others ∧
    ∀ sub ∈ e.subscription, shard.subscription = sub ∨ shard.subscription = .unpinned

theorem spans_of_contains (h : e.contains p = true) : e.Spans p.shard := by
  obtain ⟨ho, hmatch⟩ := Bool.and_eq_true_iff.mp h
  refine ⟨beq_iff_eq.mp ho, fun sub hsub => ?_⟩
  rw [Option.mem_def.mp hsub] at hmatch
  exact (Selection.holds_ofSubscription.mp (Bool.and_eq_true_iff.mp hmatch).1).imp_right And.left

/-- The seeds are the admitted factory profiles, in whatever order. -/
theorem mem_seeds : q ∈ seeds e factory ↔ ∃ p ∈ factory, e.admits p = true ∧ q = seed p := by
  have hmap : q ∈ (factory.filter e.admits).map seed ↔
      ∃ p ∈ factory, e.admits p = true ∧ q = seed p := by
    simp only [List.mem_map, List.mem_filter, and_assoc, eq_comm]
  have hmet := Bool.eq_false_or_eq_true (Mvno.isMet q e.sim)
  rw [← hmap, seeds, List.mem_append, List.mem_filter, List.mem_filter, ← and_or_left]
  refine and_iff_left ?_
  rcases hmet with h | h
  · exact Or.inl h
  · exact Or.inr (by rw [h]; rfl)

/-! ## Placing seeds -/

/-- **What becomes of one more seed**: it lands on one that waits, or it waits itself, or it meets a
surviving row. -/
theorem Seeding.place_cases (h : s.place survivors q = .ok s') :
    (∃ i, placeOf s.waiting q = some i ∧ s' = { s with waiting := landAt s.waiting i q }) ∨
    (placeOf s.waiting q = none ∧ hits q survivors = [] ∧
      s' = { s with waiting := s.waiting ++ [q] }) ∨
    (placeOf s.waiting q = none ∧ ∃ row, hits q survivors = [row] ∧
      s' = if (mergeOnto row q).2 = .preservedIntent then s
        else { s with overwritten := s.overwritten ++ [(mergeOnto row q).1] }) := by
  unfold Seeding.place at h
  cases hw : placeOf s.waiting q with
  | some i =>
    simp only [hw] at h
    cases h
    exact Or.inl ⟨i, rfl, rfl⟩
  | none =>
    simp only [hw] at h
    refine Or.inr ?_
    cases hh : hits q survivors with
    | nil =>
      rw [resolve_of_nil hh] at h
      cases h
      exact Or.inl ⟨rfl, rfl, rfl⟩
    | cons row more =>
      cases more with
      | cons row' more =>
        rw [resolve_of_many hh] at h
        cases h
      | nil =>
        rw [resolve_of_singleton hh] at h
        refine Or.inr ⟨rfl, row, rfl, ?_⟩
        rcases snd_mergeOnto row q with ho | ho
        · rw [ho] at h ⊢
          cases h
          rfl
        · rw [ho] at h ⊢
          cases h
          rfl

/-- The seeds placed so far overwrite nothing, and those that wait have new and distinct keys. -/
structure Seeding.Sound (survivors : List Profile) (s : Seeding) : Prop where
  overwritten : s.overwritten = []
  waiting : ∀ w ∈ s.waiting, w.id = none ∧ w.owner = .others
  distinct : (s.waiting.map Profile.key).Nodup
  apart : ∀ w ∈ s.waiting, ∀ r ∈ survivors, r.key ≠ w.key

theorem Seeding.Sound.empty (survivors : List Profile) : Seeding.Sound survivors {} where
  overwritten := rfl
  waiting := fun _ h => absurd h List.not_mem_nil
  distinct := List.nodup_nil
  apart := fun _ h => absurd h List.not_mem_nil

/-- A stored row of the extent that survives has recorded intent. -/
theorem isUnedited_of_survivor (hc : e.contains row = true) (hid : row.id.isSome = true)
    (hd : e.drops row = false) : row.status.isUnedited = false := by
  cases hs : row.status with
  | unedited => simp [Extent.drops, hc, hid, hs, isDropped] at hd
  | _ => rfl

/-- A seed that lands on a row with recorded intent leaves that intent. -/
theorem mergeOnto_preserves (hrow : row.status.isUnedited = false)
    (hp : p.status.isUnedited = true) : (mergeOnto row p).2 = .preservedIntent := by
  unfold mergeOnto
  simp [hrow, hp]

/-- The surviving rows are stored, and those of the extent have recorded intent. -/
def Kept (e : Extent) (survivors : List Profile) : Prop :=
  ∀ r ∈ survivors, r.id.isSome = true ∧ e.drops r = false

theorem kept_survivors (hid : ∀ p ∈ rows, p.id.isSome = true) : Kept e (rows.filter (!e.drops ·)) :=
  fun r hr => by
    obtain ⟨hm, hd⟩ := List.mem_filter.mp hr
    exact ⟨hid r hm, by simpa using hd⟩

/-- A seed lands on one that waits. -/
theorem Seeding.Sound.land {i : Nat} (h : Seeding.Sound survivors s)
    (hw : placeOf s.waiting (seed p) = some i) :
    Seeding.Sound survivors { s with waiting := landAt s.waiting i (seed p) } := by
  obtain ⟨hi, hkey⟩ := exists_of_placeOf hw
  have hmap := map_key_landAt hw
  have hmem (w : Profile) (hm : w ∈ landAt s.waiting i (seed p)) : ∃ v ∈ s.waiting, v.key = w.key :=
    List.mem_map.mp (hmap ▸ List.mem_map_of_mem hm)
  refine ⟨h.overwritten, fun w hm => ⟨?_, ?_⟩, hmap ▸ h.distinct, fun w hm r hr => ?_⟩
  · rw [landAt_eq_set hi] at hm
    rcases List.mem_or_eq_of_mem_set hm with hm | rfl
    · exact (h.waiting w hm).1
    · rw [id_mergeOnto]
      exact (h.waiting _ (List.getElem_mem hi)).1
  · obtain ⟨v, hv, hvw⟩ := hmem w hm
    exact (Profile.owner_eq_of_key_eq hvw).symm.trans (h.waiting v hv).2
  · obtain ⟨v, hv, hvw⟩ := hmem w hm
    exact hvw ▸ h.apart v hv r hr

/-- A seed with a key of its own waits. -/
theorem Seeding.Sound.wait (h : Seeding.Sound survivors s) (hw : placeOf s.waiting (seed p) = none)
    (hh : hits (seed p) survivors = []) :
    Seeding.Sound survivors { s with waiting := s.waiting ++ [seed p] } := by
  refine ⟨h.overwritten, fun w hm => ?_, ?_, fun w hm r hr => ?_⟩
  · rcases List.mem_append.mp hm with hm | hm
    · exact h.waiting w hm
    · obtain rfl := List.mem_singleton.mp hm
      exact ⟨rfl, rfl⟩
  · rw [List.map_append, List.map_singleton, List.nodup_append]
    refine ⟨h.distinct, List.pairwise_singleton _ _, fun k hk k' hk' heq => ?_⟩
    obtain ⟨w, hwm, rfl⟩ := List.mem_map.mp hk
    exact placeOf_eq_none.mp hw w hwm (heq.trans (List.mem_singleton.mp hk'))
  · rcases List.mem_append.mp hm with hm | hm
    · exact h.apart w hm r hr
    · obtain rfl := List.mem_singleton.mp hm
      intro hkey
      have hhit : r ∈ hits (seed p) survivors := mem_hits.mpr ⟨hr, Or.inl rfl, hkey⟩
      rw [hh] at hhit
      exact List.not_mem_nil hhit

/-- **One more seed** keeps the seeding sound. -/
theorem Seeding.Sound.place (h : Seeding.Sound survivors s) (hk : Kept e survivors)
    (hadm : e.admits p = true) (hplace : s.place survivors (seed p) = .ok s') :
    Seeding.Sound survivors s' := by
  obtain ⟨i, hw, rfl⟩ | ⟨hw, hh, rfl⟩ | ⟨-, row, hh, rfl⟩ := Seeding.place_cases hplace
  · exact h.land hw
  · exact h.wait hw hh
  · obtain ⟨hrow, -, hkey⟩ := mem_hits.mp (hh ▸ List.mem_singleton_self row)
    have hcont : e.contains row = true := (contains_of_key_eq e hkey).trans (contains_seed hadm)
    have hintent := isUnedited_of_survivor hcont (hk row hrow).1 (hk row hrow).2
    rw [if_pos (mergeOnto_preserves hintent rfl)]
    exact h

/-! ## The plan -/

/-- The ids of the rows that a restore takes out. -/
def droppedIds (e : Extent) (rows : List Profile) : List RowId := (rows.filter e.drops).filterMap (·.id)

/-- All seeds have been placed among the rows that survive. -/
def Seeded (e : Extent) (factory rows : List Profile) (s : Seeding) : Prop :=
  (seeds e factory).foldlM (Seeding.place (rows.filter (!e.drops ·))) {} = .ok s

/-- The plan that the placed seeds amount to. -/
def planOf (e : Extent) (rows : List Profile) (s : Seeding) : Plan where
  batch := (rows.filter e.drops).filterMap (·.id.map .delete) ++ s.overwritten.map .replace ++
    s.waiting.map .insert
  report := {
    deleted := (rows.filter e.drops).length
    preserved := ((rows.filter (!e.drops ·)).filter e.contains).length
    seeded := s.waiting.length }

/-- No pattern is refused if no test fails, on a row or on a factory profile. -/
theorem refusal_eq_none : refusal engine rows factory e = none ↔
    (∀ r ∈ rows, e.refusalOfRow engine r = none) ∧
      ∀ d ∈ factory, e.refusalOfDefault engine d = none := by
  rw [refusal, Option.or_eq_none_iff, List.findSome?_eq_none_iff, List.findSome?_eq_none_iff]

/-- A restore is prepared when no pattern is refused and all seeds can be placed. -/
theorem prepare_eq_ok {plan : Plan} : prepare engine rows factory e = .ok plan ↔
    refusal engine rows factory e = none ∧ ∃ s, Seeded e factory rows s ∧ planOf e rows s = plan := by
  unfold prepare
  cases refusal engine rows factory e with
  | some err => exact ⟨nofun, nofun⟩
  | none =>
    show Restore.plan rows factory e = .ok plan ↔ _
    rw [Restore.plan]
    unfold Seeded
    cases (seeds e factory).foldlM (Seeding.place (rows.filter (!e.drops ·))) {} with
    | error err => exact ⟨nofun, fun ⟨_, _, h, _⟩ => nomatch h⟩
    | ok s =>
      constructor
      · intro h
        exact ⟨rfl, s, rfl, Except.ok.inj h⟩
      · rintro ⟨-, s', hs, rfl⟩
        cases hs
        rfl

/-- **What each seed keeps is true of all seeds**, once they are placed. It may speak of the seeds
placed so far. -/
theorem Seeded.induction {P : List Profile → Seeding → Prop} (h : Seeded e factory rows s)
    (hempty : P [] {}) (hstep : ∀ done s p s', P done s → e.admits p = true →
      s.place (rows.filter (!e.drops ·)) (seed p) = .ok s' → P (done ++ [seed p]) s') :
    P (seeds e factory) s := by
  refine foldlM_induction hempty (fun q hq done s s' hs hplace => ?_) h
  obtain ⟨p, -, hadm, rfl⟩ := mem_seeds.mp hq
  exact hstep done s p s' hs hadm hplace

theorem Seeded.sound (h : Seeded e factory rows s) (hid : ∀ p ∈ rows, p.id.isSome = true) :
    Seeding.Sound (rows.filter (!e.drops ·)) s := by
  exact h.induction (P := fun _ s => Seeding.Sound (rows.filter (!e.drops ·)) s) (.empty _)
    fun _ _ _ _ hs hadm hplace => hs.place (kept_survivors hid) hadm hplace

/-- **What waits to be inserted lies in the extent.** -/
theorem Seeded.contains_waiting (h : Seeded e factory rows s) : ∀ w ∈ s.waiting, e.contains w = true := by
  refine h.induction (P := fun _ s => ∀ w ∈ s.waiting, e.contains w = true)
    (fun _ hm => absurd hm List.not_mem_nil) fun _ s p s' hs hadm hplace w hm => ?_
  obtain ⟨i, hw, rfl⟩ | ⟨-, -, rfl⟩ | ⟨-, row, -, rfl⟩ := Seeding.place_cases hplace
  · -- What landed has the key of what waited before.
    have hkey : w.key ∈ s.waiting.map Profile.key := map_key_landAt hw ▸ List.mem_map_of_mem hm
    obtain ⟨v, hv, hvw⟩ := List.mem_map.mp hkey
    exact (contains_of_key_eq e hvw).symm.trans (hs v hv)
  · rcases List.mem_append.mp hm with hm | hm
    · exact hs w hm
    · exact List.mem_singleton.mp hm ▸ contains_seed hadm
  · refine hs w ?_
    split at hm
    · exact hm
    · exact hm

/-- **What a plan does**: rows of the extent are deleted, and seeds with new keys are inserted. -/
theorem Seeding.Sound.batch (h : Seeding.Sound survivors s) : (planOf e rows s).batch =
    (droppedIds e rows).map .delete ++ ([] : Rows).map (fun r => .replace r.2) ++
      s.waiting.map .insert := by
  rw [planOf, h.overwritten, droppedIds, List.map_filterMap]
  rfl

end Restore

namespace Table

open Restore

variable {t t' : Table} {e : Extent} {factory : List Profile} {engine : Mvno.Engine}
  {S : Shard → Prop}

/-- The table after a restore, and its report. -/
def restored (engine : Mvno.Engine) (factory : List Profile) (e : Extent) (t : Table) :
    Except Error (Report × Table) :=
  match prepare engine t.rows.profiles factory e with
  | .error err => .error err
  | .ok plan => (t.apply plan.batch).map fun r => (plan.report, r.1)

/-! ## What a restore moves -/

theorem moves_of_removeAll : ∀ {gone : List RowId} {t : Table}, gone.Nodup →
    (∀ id ∈ gone, ∃ p, t.get? id = some p ∧ S p.shard) → Moves S t (t.removeAll gone)
  | [], t, _, _ => Moves.refl t
  | id :: gone, t, hn, hg => by
    obtain ⟨hnot, hn⟩ := List.nodup_cons.mp hn
    obtain ⟨p, hp, hs⟩ := hg id List.mem_cons_self
    refine (Move.moves (.drop hp hs)).trans (moves_of_removeAll hn fun other hother => ?_)
    obtain ⟨q, hq, hsq⟩ := hg other (List.mem_cons_of_mem id hother)
    have hne : other ≠ id := fun heq => hnot (heq ▸ hother)
    exact ⟨q, by rw [get?_remove, if_neg hne, hq], hsq⟩

theorem moves_of_pushAll : ∀ {fresh : List Profile} {t : Table}, (∀ p ∈ fresh, S p.shard) →
    (fresh.map Profile.key).Nodup → (∀ p ∈ fresh, t.KeyNew p.key) → Moves S t (t.pushAll fresh)
  | [], t, _, _, _ => Moves.refl t
  | p :: fresh, t, hS, hd, hnew => by
    obtain ⟨hnot, hd⟩ := List.nodup_cons.mp hd
    refine (Move.moves (.add (hS p List.mem_cons_self) (hnew p List.mem_cons_self))).trans
      (moves_of_pushAll (fun q hq => hS q (List.mem_cons_of_mem p hq)) hd fun q hq id r hr => ?_)
    rw [get?_push] at hr
    split at hr
    · cases hr
      exact fun hk => hnot (hk ▸ List.mem_map_of_mem hq)
    · exact hnew q (List.mem_cons_of_mem p hq) id r hr

/-- The rows that a restore takes out are rows of its extent. -/
theorem exists_of_mem_droppedIds (hv : t.Valid) {id : RowId}
    (h : id ∈ droppedIds e t.rows.profiles) : ∃ p, t.get? id = some p ∧ e.drops p = true := by
  obtain ⟨p, hp, hid⟩ := List.mem_filterMap.mp h
  obtain ⟨hm, hd⟩ := List.mem_filter.mp hp
  obtain ⟨id', hid', hg⟩ := hv.mem_profiles_iff.mp hm
  rw [hid, Option.some.injEq] at hid'
  exact ⟨p, hid' ▸ hg, hd⟩

theorem nodup_droppedIds (hv : t.Valid) : (droppedIds e t.rows.profiles).Nodup :=
  (hv.lists.filter e.drops).nodup_ids

/-- The table after a restore of the extent, `waiting` being its seeds. -/
def reseeded (e : Extent) (waiting : List Profile) (t : Table) : Table :=
  (t.removeAll (droppedIds e t.rows.profiles)).pushAll waiting

theorem Valid.reseeded (hv : t.Valid) (e : Extent) (waiting : List Profile) :
    (t.reseeded e waiting).Valid :=
  (hv.removeAll _).pushAll waiting

theorem Valid.sound_of_seeded {s : Seeding} (hv : t.Valid)
    (h : Seeded e factory t.rows.profiles s) :
    Seeding.Sound (t.rows.profiles.filter (!e.drops ·)) s :=
  h.sound hv.isSome_id

/-- **A plan is carried out**: its rows go, and then its seeds come. -/
theorem apply_planOf {s : Seeding} (hv : t.Valid) (h : Seeded e factory t.rows.profiles s) :
    ∃ done, t.apply (planOf e t.rows.profiles s).batch = .ok (t.reseeded e s.waiting, done) := by
  have hs := hv.sound_of_seeded h
  have he : t.Editable (droppedIds e t.rows.profiles) [] := {
    sorted := List.Pairwise.nil
    nodup := nodup_droppedIds hv
    gone_live := fun id hid => by
      obtain ⟨p, hp, -⟩ := exists_of_mem_droppedIds hv hid
      rw [hp]
      rfl
    changed_live := fun _ h => absurd h List.not_mem_nil }
  rw [hs.batch]
  exact ⟨_, apply_edit he fun p hp => (hs.waiting p hp).1⟩

/-- A restore moves rows of its extent. -/
theorem moves_of_seeded {s : Seeding} (hv : t.Valid) (h : Seeded e factory t.rows.profiles s) :
    Moves e.Spans t (t.reseeded e s.waiting) := by
  have hs := hv.sound_of_seeded h
  refine (moves_of_removeAll (nodup_droppedIds hv) fun id hid => ?_).trans
    (moves_of_pushAll (fun p hp => spans_of_contains (h.contains_waiting p hp)) hs.distinct
      fun p hp id r hr => ?_)
  · obtain ⟨p, hp, hd⟩ := exists_of_mem_droppedIds hv hid
    simp only [Extent.drops, Bool.and_eq_true] at hd
    exact ⟨p, hp, spans_of_contains hd.1.1⟩
  · -- A row that is left was no row to be taken out, so it survived.
    rw [get?_removeAll] at hr
    split at hr
    · cases hr
    · rename_i hid
      refine hs.apart p hp r (List.mem_filter.mpr ⟨hv.mem_profiles hr, ?_⟩)
      cases hd : e.drops r with
      | false => rfl
      | true => exact absurd (List.mem_filterMap.mpr
          ⟨r, List.mem_filter.mpr ⟨hv.mem_profiles hr, hd⟩, hv.id_of_get? hr⟩) hid

theorem restored_of_error {err : Error} (h : prepare engine t.rows.profiles factory e = .error err) :
    t.restored engine factory e = .error err := by
  simp only [restored, h]

/-- **What a restore amounts to**: no pattern is refused, all seeds are placed, and they come for the
rows that go. -/
theorem restored_eq_ok {report : Report} (hv : t.Valid) :
    t.restored engine factory e = .ok (report, t') ↔
      refusal engine t.rows.profiles factory e = none ∧
      ∃ s, Seeded e factory t.rows.profiles s ∧ (planOf e t.rows.profiles s).report = report ∧
        t.reseeded e s.waiting = t' := by
  have happly {s : Seeding} (hs : Seeded e factory t.rows.profiles s) :
      ((t.apply (planOf e t.rows.profiles s).batch).map fun r =>
        ((planOf e t.rows.profiles s).report, r.1)) =
          .ok ((planOf e t.rows.profiles s).report, t.reseeded e s.waiting) := by
    obtain ⟨done, h⟩ := apply_planOf hv hs
    rw [h]
    rfl
  constructor
  · intro h
    cases hp : prepare engine t.rows.profiles factory e with
    | error err =>
      rw [restored_of_error hp] at h
      cases h
    | ok plan =>
      obtain ⟨hrefusal, s, hs, rfl⟩ := prepare_eq_ok.mp hp
      simp only [restored, hp, happly hs] at h
      cases h
      exact ⟨hrefusal, s, hs, rfl, rfl⟩
  · rintro ⟨hrefusal, s, hs, rfl, rfl⟩
    have hp := prepare_eq_ok.mpr ⟨hrefusal, s, hs, rfl⟩
    simp only [restored, hp, happly hs]

theorem moves_of_restored {report : Report} (hv : t.Valid)
    (h : t.restored engine factory e = .ok (report, t')) : Moves e.Spans t t' := by
  obtain ⟨-, s, hs, -, rfl⟩ := (restored_eq_ok hv).mp h
  exact moves_of_seeded hv hs

end Table

/-! ## The calls -/

namespace Registry

variable {setup : Setup} {s : State Table} {e : Restore.Extent}

theorem perform_restoreOnce (setup : Setup) (e : Restore.Extent) (hv : s.store.Valid) :
    (restoreOnce setup e).perform s =
      match s.store.restored setup.engine setup.defaults e with
      | .error err => (.error err, s)
      | .ok (report, t) => (.ok (.ok report), { s with store := t }) := by
  rw [restoreOnce, Action.perform_bind, perform_rows]
  show (decided (Restore.prepare setup.engine (s.store.scan .always .idAscending) setup.defaults e) >>= _ :
    Action Table _).perform s = _
  rw [Table.scan_always, Action.perform_bind, Action.perform_decided]
  cases hp : Restore.prepare setup.engine s.store.rows.profiles setup.defaults e with
  | error err => rw [Table.restored_of_error hp]
  | ok plan =>
    obtain ⟨hrefusal, seeding, hs, rfl⟩ := Restore.prepare_eq_ok.mp hp
    obtain ⟨done, happly⟩ := Table.apply_planOf hv hs
    rw [(Table.restored_eq_ok hv).mpr ⟨hrefusal, seeding, hs, rfl, rfl⟩]
    show (outcomeOf (write (Restore.planOf e s.store.rows.profiles seeding).batch) >>= _ :
      Action Table _).perform s = _
    rw [Action.perform_bind, Action.perform_outcomeOf, perform_write happly]
    rfl

/-- **A restore of a table in memory is carried out at the first attempt**, or cannot be planned. -/
theorem perform_restoreRows (setup : Setup) (e : Restore.Extent) (retries : Nat)
    (hv : s.store.Valid) : (restoreRows setup e retries).perform s =
      (edits (Table.restored setup.engine setup.defaults e)).perform s := by
  cases hr : s.store.restored setup.engine setup.defaults e with
  | error err =>
    have honce : (restoreOnce setup e).perform s = (.error err, s) := by
      rw [perform_restoreOnce setup e hv, hr]
    rw [perform_edits_of_error hr]
    cases retries with
    | zero => rw [restoreRows, Action.perform_bind, honce]
    | succ retries => rw [restoreRows, Action.perform_bind, honce]
  | ok r =>
    obtain ⟨report, t⟩ := r
    have honce : (restoreOnce setup e).perform s = (.ok (.ok report), { s with store := t }) := by
      rw [perform_restoreOnce setup e hv, hr]
    rw [perform_edits_of_ok hr]
    cases retries with
    | zero =>
      rw [restoreRows, Action.perform_bind, honce]
      rfl
    | succ retries =>
      rw [restoreRows, Action.perform_bind, honce]
      rfl

end Registry

end ApnRegistry
