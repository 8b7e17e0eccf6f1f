import ApnRegistry.Proofs.Seeds

/-!
# The order of the seeds

The profiles that a restore inserts come in the order in which their keys first turn up among the seeds.
Whether the SIM meets the constraint of a profile is settled by its key. So the profiles of one key stand
together on one side when those that the SIM meets are put first, in the order of the factory list: which
of them is the last one, and what service types they have together, is read off the list as it is.

Results:
* `Seeded.map_key_waiting`: the keys that wait, in order.
* `filter_key_seeds`: the seeds with one key, in the order of the factory list.
* `inserted_in_order`: the plan.
-/

namespace ApnRegistry

open Collision

namespace Restore

variable {e : Extent} {p q : Profile} {factory survivors done rows : List Profile} {s s' : Seeding}
  {k : Profile.Key}

/-! ## Keys in the order of their first appearance -/

/-- The keys of the profiles, each one where it first turns up. -/
def firsts (ps : List Profile) : List Profile.Key := (ps.map Profile.key).eraseDups

theorem firsts_append_of_mem (h : q.key ∈ done.map Profile.key) : firsts (done ++ [q]) = firsts done := by
  have hgone : [q.key].removeAll (done.map Profile.key) = [] :=
    List.filter_eq_nil_iff.mpr fun k hk => by simpa [List.mem_singleton.mp hk] using h
  rw [firsts, List.map_append, List.map_singleton, List.eraseDups_append, hgone]
  exact List.append_nil _

theorem firsts_append_of_notMem (h : q.key ∉ done.map Profile.key) :
    firsts (done ++ [q]) = firsts done ++ [q.key] := by
  have hstays : [q.key].removeAll (done.map Profile.key) = [q.key] :=
    List.filter_eq_self.mpr fun k hk => by simpa [List.mem_singleton.mp hk] using h
  rw [firsts, List.map_append, List.map_singleton, List.eraseDups_append, hstays]
  rfl

/-- The keys of two lists that share none. -/
theorem firsts_append_of_disjoint {ps qs : List Profile} (h : ∀ q ∈ qs, ∀ p ∈ ps, p.key ≠ q.key) :
    firsts (ps ++ qs) = firsts ps ++ firsts qs := by
  have hall : (qs.map Profile.key).removeAll (ps.map Profile.key) = qs.map Profile.key := by
    refine List.filter_eq_self.mpr fun k hk => ?_
    obtain ⟨q, hq, rfl⟩ := List.mem_map.mp hk
    simpa using fun p hp => h q hq p hp
  rw [firsts, List.map_append, List.eraseDups_append, hall]
  rfl

theorem mem_firsts {ps : List Profile} : k ∈ firsts ps ↔ k ∈ ps.map Profile.key :=
  List.mem_eraseDups

/-! ## The keys that wait -/

/-- The keys that wait are those of the seeds placed so far that no surviving row has. -/
def Seeding.Ordered (survivors done : List Profile) (s : Seeding) : Prop :=
  s.waiting.map Profile.key = (firsts done).filter (isFree survivors)

theorem Seeding.Ordered.key_mem (h : Seeding.Ordered survivors done s) (hw : q ∈ s.waiting) :
    q.key ∈ done.map Profile.key ∧ isFree survivors q.key = true := by
  have hm : q.key ∈ s.waiting.map Profile.key := List.mem_map_of_mem hw
  rw [h, List.mem_filter, mem_firsts] at hm
  exact hm

/-- **One more seed** comes after all that wait, unless its key has turned up or is taken. -/
theorem Seeding.Ordered.place (h : Seeding.Ordered survivors done s) (hsound' : Seeding.Sound survivors s')
    (hplace : s.place survivors q = .ok s') : Seeding.Ordered survivors (done ++ [q]) s' := by
  obtain ⟨i, hi, hs'⟩ | ⟨hnone, hs'⟩ | ⟨-, ⟨r, hr, hrk⟩, hs'⟩ := Seeding.waiting_cases hplace
  · obtain ⟨hlt, hkey⟩ := exists_of_placeOf hi
    have hseen : q.key ∈ done.map Profile.key := hkey ▸ (h.key_mem (List.getElem_mem hlt)).1
    rw [Seeding.Ordered, hs', map_key_landAt hi, firsts_append_of_mem hseen]
    exact h
  · have hfree : isFree survivors q.key = true :=
      isFree_eq_true.mpr (hsound'.apart q (hs' ▸ List.mem_append_right _ (List.mem_singleton_self q)))
    have hnew : q.key ∉ done.map Profile.key := fun hm => by
      have hwaits : q.key ∈ s.waiting.map Profile.key := by
        rw [h, List.mem_filter, mem_firsts]
        exact ⟨hm, hfree⟩
      obtain ⟨w, hw, hk⟩ := List.mem_map.mp hwaits
      exact placeOf_eq_none.mp hnone w hw hk
    rw [Seeding.Ordered, hs', List.map_append, h, firsts_append_of_notMem hnew, List.filter_append,
      List.map_singleton, List.filter_singleton, hfree]
    rfl
  · have htaken : isFree survivors q.key = false := by
      rw [← Bool.not_eq_true, isFree_eq_true]
      exact fun hfree => hfree r hr hrk
    rw [Seeding.Ordered, hs', h]
    by_cases hseen : q.key ∈ done.map Profile.key
    · rw [firsts_append_of_mem hseen]
    · rw [firsts_append_of_notMem hseen, List.filter_append, List.filter_singleton, htaken]
      exact (List.append_nil _).symm

/-- **The keys that wait in the end**, in order. -/
theorem Seeded.map_key_waiting (h : Seeded e factory rows s) (hid : ∀ p ∈ rows, p.id.isSome = true) :
    s.waiting.map Profile.key = (firsts (seeds e factory)).filter (isFree (rows.filter (!e.drops ·))) :=
  (h.induction (P := fun done s => Seeding.Sound (rows.filter (!e.drops ·)) s ∧
      Seeding.Ordered (rows.filter (!e.drops ·)) done s) ⟨.empty _, rfl⟩
    fun _ _ _ _ ⟨hsound, hs⟩ hadm hplace =>
      have hsound' := hsound.place (kept_survivors hid) hadm hplace
      ⟨hsound', hs.place hsound' hplace⟩).2

/-! ## The seeds in the order of the factory list -/

/-- The factory profiles of the extent, as they are seeded. -/
def admitted (e : Extent) (factory : List Profile) : List Profile := (factory.filter e.admits).map seed

/-- If the profiles with one key pass alike, all of them stay or none. -/
theorem filter_key_filter {f : Profile → Bool} {passes : Bool} {ps : List Profile}
    (h : ∀ p ∈ ps, p.key = k → f p = passes) :
    (ps.filter f).filter (·.key == k) = if passes then ps.filter (·.key == k) else [] := by
  rw [List.filter_filter]
  cases passes with
  | true =>
    refine List.filter_congr fun p hp => ?_
    by_cases hk : p.key = k
    · rw [h p hp hk, Bool.and_true]
    · rw [beq_eq_false_iff_ne.mpr hk, Bool.false_and]
  | false =>
    refine List.filter_eq_nil_iff.mpr fun p hp hboth => ?_
    obtain ⟨hk, hf⟩ := Bool.and_eq_true_iff.mp hboth
    rw [h p hp (beq_iff_eq.mp hk)] at hf
    cases hf

/-- The SIM meets all profiles with one key, or none. -/
theorem exists_isMet_eq (sim : Sim) (ps : List Profile) (k : Profile.Key) :
    ∃ met : Bool, ∀ p ∈ ps, p.key = k → Mvno.isMet p sim = met := by
  by_cases h : ∃ p ∈ ps, p.key = k
  · obtain ⟨p, -, hk⟩ := h
    exact ⟨Mvno.isMet p sim, fun q _ hq => isMet_congr (hq.trans hk.symm)⟩
  · exact ⟨false, fun q hq hk => absurd ⟨q, hq, hk⟩ h⟩

/-- **The seeds with one key** are the admitted profiles with that key, in their order. -/
theorem filter_key_seeds (e : Extent) (factory : List Profile) (k : Profile.Key) :
    (seeds e factory).filter (·.key == k) = (admitted e factory).filter (·.key == k) := by
  obtain ⟨met, hmet⟩ := exists_isMet_eq e.sim (admitted e factory) k
  have hsplit : seeds e factory = (admitted e factory).filter (Mvno.isMet · e.sim) ++
      (admitted e factory).filter (!Mvno.isMet · e.sim) := rfl
  rw [hsplit, List.filter_append, filter_key_filter hmet,
    filter_key_filter fun p hp hk => congrArg not (hmet p hp hk)]
  cases met with
  | false => rfl
  | true => exact List.append_nil _

/-- No profile that the SIM meets has the key of one that it does not meet. -/
theorem firsts_seeds (e : Extent) (factory : List Profile) : firsts (seeds e factory) =
    firsts ((admitted e factory).filter (Mvno.isMet · e.sim)) ++
      firsts ((admitted e factory).filter (!Mvno.isMet · e.sim)) := by
  refine firsts_append_of_disjoint fun q hq p hp hk => ?_
  have hmet := (List.mem_filter.mp hp).2
  have hnot := (List.mem_filter.mp hq).2
  rw [isMet_congr hk] at hmet
  rw [hmet] at hnot
  cases hnot

/-- **What a restore inserts.** Its inserts come after its deletes, one for each key that an admitted
factory profile has and no surviving row: first the keys of profiles that the SIM meets, then the other
ones, each group in the order in which its keys first turn up in the factory list. The inserted profile is
the last admitted one with its key, with the service types of all of them, joined from left to right. -/
theorem inserted_in_order (engine : Mvno.Engine) (factory : List Profile) (e : Extent) (t : Table)
    (plan : Plan) (hv : t.Valid) (h : prepare engine t.rows.profiles factory e = .ok plan) :
    let rows := t.rows.profiles
    let defaults := admitted e factory
    let first := defaults.filter (Mvno.isMet · e.sim)
    let later := defaults.filter (!Mvno.isMet · e.sim)
    ∃ fresh : List Profile,
      plan.batch = (droppedIds e rows).map .delete ++ fresh.map .insert ∧
      (fresh.map Profile.key).Nodup ∧
      fresh.map Profile.key = (firsts first ++ firsts later).filter (isFree (rows.filter (!e.drops ·))) ∧
      ∀ w ∈ fresh, ∃ q, lastWith w.key defaults = some q ∧
        w = { q with apnTypes := typesWith w.key defaults } := by
  obtain ⟨-, s, hs, rfl⟩ := prepare_eq_ok.mp h
  have hsound := hs.sound hv.isSome_id
  refine ⟨s.waiting, ?_, hsound.distinct, ?_, fun w hw => ?_⟩
  · rw [hsound.batch, List.map_nil, List.append_nil]
  · rw [hs.map_key_waiting hv.isSome_id, firsts_seeds]
  · have hlatest := hs.latest hv.isSome_id w hw
    unfold lastWith typesWith at hlatest ⊢
    rw [filter_key_seeds] at hlatest
    exact hlatest

/-- The key of one factory profile is taken by a row with intent, and another key turns up twice. The
profile of the virtual operator comes first. -/
theorem inserted_in_order_twice :
    let e : Extent := ⟨none, { operator := some "26201", spn := some "Coop" }⟩
    let factory : List Profile := [{ apn := "web", numeric := "26201", apnTypes := "default" },
      { apn := "mms", numeric := "26201" },
      { apn := "coop", numeric := "26201", mvnoKind := .spn, mvnoData := "Coop", apnTypes := "dun, dun" },
      { apn := "web", numeric := "26201", apnTypes := "MMS, Default", name := "Web" }]
    let t : Table := .ofProfiles [{ apn := "mms", numeric := "26201", status := .userEdited },
      { apn := "web", numeric := "26201" }]
    let plan : Plan := {
      batch := [.delete ⟨2⟩,
        .insert {
          apn := "coop", numeric := "26201", mvnoKind := .spn, mvnoData := "Coop", apnTypes := "dun, dun" },
        .insert { apn := "web", numeric := "26201", apnTypes := "default,MMS", name := "Web" }]
      report := { deleted := 1, preserved := 1, seeded := 2 } }
    t.Valid ∧ prepare (fun _ => none) t.rows.profiles factory e = .ok plan ∧
      ∃ fresh : List Profile,
        plan.batch = (droppedIds e t.rows.profiles).map .delete ++ fresh.map .insert ∧
        fresh.map (·.apn) = ["coop", "web"] ∧
        ∀ w ∈ fresh, ∃ q, lastWith w.key (admitted e factory) = some q ∧
          w = { q with apnTypes := typesWith w.key (admitted e factory) } := by
  intro e factory t plan
  have hv : t.Valid := .ofProfiles _
  have h : prepare (fun _ => none) t.rows.profiles factory e = .ok plan := by
    decide +kernel
  obtain ⟨fresh, hbatch, -, hkeys, hrow⟩ := inserted_in_order (fun _ => none) factory e t plan hv h
  refine ⟨hv, h, fresh, hbatch, ?_, hrow⟩
  have hapns : fresh.map (·.apn) = (fresh.map Profile.key).map (·.apn) := by
    rw [List.map_map]
    rfl
  rw [hapns, hkeys]
  decide +kernel

end Restore

end ApnRegistry
