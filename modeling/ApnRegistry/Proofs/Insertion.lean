import ApnRegistry.Proofs.Authorization
import ApnRegistry.Proofs.InMemory
import ApnRegistry.Proofs.Moves
import ApnRegistry.Proofs.Overlay
import ApnRegistry.Registry.Insert

/-!
# Inserts: the draft and the table it is a draft of

`Table.enter` inserts one profile by looking at the table itself, and `Table.enterAll` one after the
other. A draft of an insert never looks at the table again. It is an overlay whose new rows have
keys that nothing else has, and with every profile it does what `enter` does to the table that the
overlay stands for, the ids of new rows aside, which it cannot know yet (`Slot.idIn`).

Results:
* `Table.entry_of_enter`, `Table.enterAll_induction`: what becomes of a profile that is entered, and what
  is true after any number of them.
* `Table.moves_of_enterAll`: what the entered profiles move.
* `Draft.Sound.agree`: one profile.
* `Draft.foldlM_enterAll`: any number of them.
* `perform_insertProfiles`: an insert into a table in memory enters its profiles one by one.
-/

namespace ApnRegistry

open Collision

namespace Table

variable {t t' : Table} {p row : Profile} {id : RowId}

/-- Inserts one profile. A policy profile that collides is turned away. -/
def enter (t : Table) (p : Profile) : Except Error (Option RowId × Table) :=
  match p.owner with
  | .dpc =>
    match resolveDpc p t.rows.profiles with
    | .ok r => .ok (some (t.settle r.stored).1, (t.settle r.stored).2)
    | .error _ => .ok (none, t)
  | .others =>
    match resolve p t.rows.profiles with
    | .ok r => .ok (some (t.settle r.stored).1, (t.settle r.stored).2)
    | .error e => .error e

/-- Inserts profiles one by one. -/
def enterAll : List Profile → Table → Except Error (List (Option RowId) × Table)
  | [], t => .ok ([], t)
  | p :: ps, t => do
    let (id, t) ← t.enter p
    let (ids, t) ← enterAll ps t
    return (id :: ids, t)

theorem enter_of_new (hid : p.id = none) (hh : hits p t.rows.profiles = []) :
    t.enter p = .ok (some ⟨t.nextId⟩, (t.push p).2) := by
  have hs : t.settle p = t.push p := settle_of_none hid
  unfold enter
  cases p.owner with
  | dpc => simp only [resolveDpc_of_nil hh, hs, fst_push]
  | others => simp only [resolve_of_nil hh, hs, fst_push]

theorem enter_of_rejected (ho : p.owner = .dpc) (hh : hits p t.rows.profiles ≠ []) :
    t.enter p = .ok (none, t) := by
  simp only [enter, ho, resolveDpc_of_ne_nil hh]

theorem enter_of_hit (ho : p.owner = .others) (hh : hits p t.rows.profiles = [row])
    (hid : row.id = some id) : t.enter p = .ok (some id, t.set id (mergeOnto row p).1) := by
  have hm : (mergeOnto row p).1.id = some id := (id_mergeOnto row p).trans hid
  simp only [enter, ho, resolve_of_singleton hh, settle_of_some hm]

theorem enter_of_error {e : Error} (ho : p.owner = .others)
    (hr : resolve p t.rows.profiles = .error e) : t.enter p = .error e := by
  simp only [enter, ho, hr]

theorem enterAll_cons_of_ok {id : Option RowId} {ids : List (Option RowId)} {t'' : Table}
    {ps : List Profile} (h : t.enter p = .ok (id, t')) (hs : t'.enterAll ps = .ok (ids, t'')) :
    t.enterAll (p :: ps) = .ok (id :: ids, t'') := by
  simp only [enterAll, h, hs, bind, Except.bind, pure, Except.pure]

theorem enterAll_cons_of_error {e : Error} (ps : List Profile) (h : t.enter p = .error e) :
    t.enterAll (p :: ps) = .error e := by
  simp only [enterAll, h, bind, Except.bind]

theorem enterAll_cons_of_error_tail {id : Option RowId} {e : Error} {ps : List Profile}
    (h : t.enter p = .ok (id, t')) (hs : t'.enterAll ps = .error e) :
    t.enterAll (p :: ps) = .error e := by
  simp only [enterAll, h, hs, bind, Except.bind]

/-- What becomes of a profile that is entered, and of its table. -/
inductive Entry (t : Table) (p : Profile) : Option RowId → Table → Prop
  /-- It is a new row, with a key that no row has. -/
  | fresh (key : t.KeyNew p.key) : Entry t p (some ⟨t.nextId⟩) (t.push p).2
  /-- A policy profile is turned away. -/
  | rejected (owner : p.owner = .dpc) : Entry t p none t
  /-- An ordinary profile lands on the row that has its key. -/
  | merged {id : RowId} {row : Profile} (owner : p.owner = .others) (there : t.get? id = some row)
      (key : row.key = p.key) : Entry t p (some id) (t.set id (mergeOnto row p).1)

/-- **A profile that is entered finds its place.** -/
theorem entry_of_enter {o : Option RowId} (hv : t.Valid) (hid : p.id = none)
    (h : t.enter p = .ok (o, t')) : t.Entry p o t' := by
  cases hh : hits p t.rows.profiles with
  | nil =>
    rw [enter_of_new hid hh] at h
    cases h
    exact .fresh (hv.keyNew_of_hits hid hh)
  | cons row more =>
    cases ho : p.owner with
    | dpc =>
      rw [enter_of_rejected ho (by rw [hh]; nofun)] at h
      cases h
      exact .rejected ho
    | others =>
      cases more with
      | nil =>
        obtain ⟨id, hrow, hg, hk, -⟩ := hv.exists_of_mem_hits (hh ▸ List.mem_singleton_self row)
        rw [enter_of_hit ho hh hrow] at h
        cases h
        exact .merged ho hg hk
      | cons row' more =>
        rw [enter_of_error ho (resolve_of_many hh)] at h
        cases h

/-- **An entered profile moves rows of its own shard only.** -/
theorem moves_of_enter {o : Option RowId} (hv : t.Valid) (hid : p.id = none)
    (h : t.enter p = .ok (o, t')) : Moves (fun s => s = p.shard) t t' := by
  cases entry_of_enter hv hid h with
  | fresh key => exact Move.moves (.add rfl key)
  | rejected => exact Moves.refl t
  | @merged id row _ there key =>
    have hm : (mergeOnto row p).1.key = row.key := key_mergeOnto key
    exact Move.moves (.rewrite there ((id_mergeOnto row p).trans (hv.id_of_get? there))
      (Profile.shard_eq_of_key_eq hm) (Profile.shard_eq_of_key_eq key) (Or.inl hm))

/-- **What each entered profile keeps is true after all of them**, if all are entered. -/
theorem enterAll_induction {P : Table → Prop} : ∀ {ps : List Profile} {t : Table}
    {ids : List (Option RowId)}, P t →
    (∀ p ∈ ps, ∀ t t' o, P t → t.enter p = .ok (o, t') → P t') → t.enterAll ps = .ok (ids, t') → P t'
  | [], _, _, ht, _, h => by
    cases h
    exact ht
  | p :: ps, t, _, ht, hstep, h => by
    cases henter : t.enter p with
    | error e =>
      rw [enterAll_cons_of_error ps henter] at h
      cases h
    | ok r =>
      obtain ⟨o, t₁⟩ := r
      cases hall : t₁.enterAll ps with
      | error e =>
        rw [enterAll_cons_of_error_tail henter hall] at h
        cases h
      | ok r =>
        obtain ⟨os, t₂⟩ := r
        rw [enterAll_cons_of_ok henter hall] at h
        cases h
        exact enterAll_induction (hstep p List.mem_cons_self t t₁ o ht henter)
          (fun q hq => hstep q (List.mem_cons_of_mem p hq)) hall

theorem moves_of_enterAll {ps : List Profile} {ids : List (Option RowId)} (hv : t.Valid)
    (hid : ∀ p ∈ ps, p.id = none) (h : t.enterAll ps = .ok (ids, t')) :
    Moves (fun s => ∃ p ∈ ps, s = p.shard) t t' :=
  enterAll_induction (Moves.refl t) (fun p hp _ _ _ hm henter =>
    hm.trans ((moves_of_enter (hm.valid hv) (hid p hp) henter).mono fun _ hs => ⟨p, hp, hs⟩)) h

end Table

namespace Collision

variable {p : Profile}

/-- Among new rows with distinct keys, the one that has the key is hit. -/
theorem hits_numbered (hid : p.id = none) : ∀ {n : Nat} {waiting : List Profile},
    (waiting.map Profile.key).Nodup → hits p (Rows.numbered n waiting).profiles =
      ((placeOf waiting p).bind fun i =>
        waiting[i]?.map fun w => { w with id := some ⟨n + i⟩ }).toList
  | n, [], _ => rfl
  | n, w :: waiting, hd => by
    obtain ⟨hw, hd⟩ := List.nodup_cons.mp hd
    have ih := hits_numbered hid (n := n + 1) hd
    show hits p ({ w with id := some ⟨n⟩ } :: (Rows.numbered (n + 1) waiting).profiles) = _
    rw [hits_of_id_none hid] at ih ⊢
    rw [placeOf, List.findIdx?_cons, List.filter_cons]
    by_cases hk : w.key = p.key
    · have hnone : placeOf waiting p = none := placeOf_eq_none.mpr fun v hv heq =>
        hw (List.mem_map.mpr ⟨v, hv, heq.trans hk.symm⟩)
      rw [hnone] at ih
      simp only [Profile.key_withId, hk, beq_self_eq_true, if_true, ih]
      rfl
    · rw [← placeOf]
      simp only [Profile.key_withId, beq_eq_false_iff_ne.mpr hk, ih]
      cases placeOf waiting p with
      | none => rfl
      | some i => simp [Nat.add_assoc, Nat.add_comm 1]

end Collision

namespace Registry

/-- The id of the row that the slot names once the draft is carried out on the table. -/
def Slot.idIn (t : Table) : Slot → Option RowId
  | .rejected => none
  | .existing id => some id
  | .fresh i => some ⟨t.nextId + i⟩

namespace Draft

variable {t : Table} {f : Profile → Bool} {d d' : Draft} {p row : Profile} {id : RowId}

/-- The draft as an overlay. -/
def overlay (d : Draft) : Overlay :=
  { working := d.working, touched := d.touched, fresh := d.pending }

/-- The table that the draft leads to. -/
def table (t : Table) (d : Draft) : Table := d.overlay.table t

theorem batch_eq (d : Draft) : d.batch = d.overlay.batch := rfl

/-- The draft is a sound overlay, and nothing else has the key of a new row. -/
structure Sound (t : Table) (f : Profile → Bool) (d : Draft) : Prop where
  overlay : d.overlay.Sound t f
  distinct : (d.pending.map Profile.key).Nodup
  apart : ∀ id r, d.working.get? id = some r → ∀ w ∈ d.pending, r.key ≠ w.key
  placed : ∀ i, .fresh i ∈ d.slots → i < d.pending.length

theorem Sound.start (h : t.Valid) (hf : ∀ p q : Profile, p.key = q.key → f p = f q) :
    Sound t f { working := Rows.ofProfiles (t.rows.profiles.filter f) } where
  overlay := .copy h hf
  distinct := List.nodup_nil
  apart := fun _ _ _ _ hw => absurd hw List.not_mem_nil
  placed := fun _ hs => absurd hs List.not_mem_nil

/-! ## One profile on the draft -/

theorem add_of_new (hw : hits p d.working.profiles = []) (hp : hits p d.pending = [])
    (hplace : placeOf d.pending p = none) (hid : p.id = none) :
    d.add p = .ok { d with
      pending := d.pending ++ [p]
      slots := d.slots ++ [.fresh d.pending.length] } := by
  have hall : hits p (d.working.profiles ++ d.pending) = [] := by
    rw [hits_append, hw, hp, List.append_nil]
  unfold add
  cases p.owner with
  | dpc => simp only [resolveDpc_of_nil hall]
  | others => simp only [hplace, resolve_of_nil hw, hid, bind, Except.bind, pure, Except.pure]

theorem add_of_rejected (ho : p.owner = .dpc)
    (hh : hits p (d.working.profiles ++ d.pending) ≠ []) :
    d.add p = .ok { d with slots := d.slots ++ [.rejected] } := by
  simp only [add, ho, resolveDpc_of_ne_nil hh]

theorem add_of_waiting {i : Nat} (ho : p.owner = .others) (hp : placeOf d.pending p = some i) :
    d.add p = .ok { d with
      pending := landAt d.pending i p
      slots := d.slots ++ [.fresh i] } := by
  simp only [add, ho, hp]

theorem add_of_hit (ho : p.owner = .others) (hp : placeOf d.pending p = none)
    (hh : hits p d.working.profiles = [row]) (hid : row.id = some id) :
    d.add p = .ok { d with
      working := d.working.put id (mergeOnto row p).1
      touched := d.touched ++ [id]
      slots := d.slots ++ [.existing id] } := by
  have hm : (mergeOnto row p).1.id = some id := (id_mergeOnto row p).trans hid
  simp only [add, ho, hp, resolve_of_singleton hh, hm, bind, Except.bind, pure, Except.pure]

theorem add_of_error {e : Error} (ho : p.owner = .others) (hp : placeOf d.pending p = none)
    (hr : resolve p d.working.profiles = .error e) : d.add p = .error e := by
  simp only [add, ho, hp, hr, bind, Except.bind]

/-! ## The draft and its table -/

namespace Sound

/-- What a profile hits in the table, it hits in the draft. -/
theorem hits_table (h : Sound t f d) (hp : f p = true) : hits p (d.table t).rows.profiles =
    hits p d.working.profiles ++ hits p (Rows.numbered t.nextId d.pending).profiles :=
  h.overlay.hits_table fun q hk => (h.overlay.respects q p hk).trans hp

/-- A new row with a key that nothing has yet. -/
theorem push (h : Sound t f d) (hid : p.id = none) (hp : f p = true)
    (hw : hits p d.working.profiles = []) (hplace : placeOf d.pending p = none) :
    Sound t f { d with
      pending := d.pending ++ [p]
      slots := d.slots ++ [.fresh d.pending.length] } where
  overlay := (h.overlay.push hid hp).1
  distinct := by
    rw [List.map_append, List.map_singleton, List.nodup_append]
    refine ⟨h.distinct, List.pairwise_singleton _ _, fun k hk k' hk' heq => ?_⟩
    obtain ⟨w, hw, rfl⟩ := List.mem_map.mp hk
    exact placeOf_eq_none.mp hplace w hw (heq.trans (List.mem_singleton.mp hk'))
  apart := fun id r hr w hm => by
    rcases List.mem_append.mp hm with hm | hm
    · exact h.apart id r hr w hm
    · obtain rfl := List.mem_singleton.mp hm
      intro hk
      have : r ∈ hits w d.working.profiles :=
        mem_hits.mpr ⟨h.overlay.sorted.mem_profiles_iff.mpr ⟨id, hr⟩, Or.inl hid, hk⟩
      rw [hw] at this
      exact List.not_mem_nil this
  placed := fun i hi => by
    rw [List.length_append]
    rcases List.mem_append.mp hi with hi | hi
    · exact Nat.lt_succ_of_lt (h.placed i hi)
    · cases List.mem_singleton.mp hi
      exact Nat.lt_succ_self _

/-- A row that lands on a new one. -/
theorem land (h : Sound t f d) {i : Nat} (hp : f p = true) (hplace : placeOf d.pending p = some i) :
    Sound t f { d with
        pending := landAt d.pending i p
        slots := d.slots ++ [.fresh i] } ∧
      ∃ w, d.pending[i]? = some w ∧ w.key = p.key ∧
        table t { d with pending := landAt d.pending i p, slots := d.slots ++ [.fresh i] } =
          (d.table t).set ⟨t.nextId + i⟩
            (mergeOnto { w with id := some ⟨t.nextId + i⟩ } p).1 := by
  obtain ⟨hi, hk⟩ := exists_of_placeOf hplace
  have hw := h.overlay.fresh _ (List.getElem_mem hi)
  have hkey : (mergeOnto d.pending[i] p).1.key = d.pending[i].key := key_mergeOnto hk
  obtain ⟨hs, ht⟩ := h.overlay.amend hi ((id_mergeOnto _ p).trans hw.1)
    ((h.overlay.respects _ _ (hkey.trans hk)).trans hp)
  have hmap := map_key_landAt hplace
  refine ⟨⟨?_, ?_, ?_, ?_⟩, d.pending[i], List.getElem?_eq_getElem hi, hk, ?_⟩
  · rw [Draft.overlay, landAt_eq_set hi]
    exact hs
  · rw [hmap]
    exact h.distinct
  · intro id r hr w hm heq
    have hmem : w.key ∈ d.pending.map Profile.key := hmap ▸ List.mem_map_of_mem hm
    obtain ⟨v, hv, hvk⟩ := List.mem_map.mp hmem
    exact h.apart id r hr v hv (heq.trans hvk.symm)
  · intro j hj
    rw [landAt_eq_set hi, List.length_set]
    rcases List.mem_append.mp hj with hj | hj
    · exact h.placed j hj
    · cases List.mem_singleton.mp hj
      exact hi
  · rw [mergeOnto_withId, table, Draft.overlay, landAt_eq_set hi]
    exact ht

/-- A row that lands on a copied one. -/
theorem put (h : Sound t f d) (hp : f p = true) (hw : d.working.get? id = some row)
    (hk : row.key = p.key) :
    Sound t f { d with
        working := d.working.put id (mergeOnto row p).1
        touched := d.touched ++ [id]
        slots := d.slots ++ [.existing id] } ∧
      table t { d with
        working := d.working.put id (mergeOnto row p).1
        touched := d.touched ++ [id]
        slots := d.slots ++ [.existing id] } = (d.table t).set id (mergeOnto row p).1 := by
  have hkey : (mergeOnto row p).1.key = row.key := key_mergeOnto hk
  obtain ⟨hs, ht⟩ := h.overlay.put hw ((id_mergeOnto row p).trans (h.overlay.named id row hw).1)
    ((h.overlay.respects _ _ (hkey.trans hk)).trans hp)
  refine ⟨⟨hs, h.distinct, fun other r hr w hm => ?_, fun i hi => ?_⟩, ht⟩
  · rw [Rows.get?_put] at hr
    split at hr
    · cases hr
      rw [hkey]
      exact h.apart id row hw w hm
    · exact h.apart other r hr w hm
  · rcases List.mem_append.mp hi with hi | hi
    · exact h.placed i hi
    · cases List.mem_singleton.mp hi

end Sound

/-- Where a new row has the key, no copied row has it. -/
theorem Sound.hits_working_eq_nil (h : Sound t f d) {w : Profile} (hw : w ∈ d.pending)
    (hk : w.key = p.key) : hits p d.working.profiles = [] := by
  refine List.eq_nil_iff_forall_not_mem.mpr fun r hr => ?_
  obtain ⟨id, -, hg, hrk, -⟩ := h.overlay.exists_of_hits hr
  exact h.apart id r hg w hw (hrk.trans hk.symm)

theorem hits_pending_eq_nil (hid : p.id = none) (hplace : placeOf d.pending p = none) :
    hits p d.pending = [] := by
  rw [hits_of_id_none hid, List.filter_eq_nil_iff]
  exact fun w hw hk => placeOf_eq_none.mp hplace w hw (beq_iff_eq.mp hk)

/-- The draft and the table agree on one more profile: both fail, or the draft goes on to a draft of
the next table. -/
def Agree (t : Table) (f : Profile → Bool) (d : Draft) (p : Profile) : Prop :=
  (∃ e, d.add p = .error e ∧ (d.table t).enter p = .error e) ∨
    ∃ d' slot, d.add p = .ok d' ∧ Sound t f d' ∧ d'.slots = d.slots ++ [slot] ∧
      (d.table t).enter p = .ok (slot.idIn t, d'.table t)

theorem Sound.agree_of_rejected (h : Sound t f d) (ho : p.owner = .dpc)
    (hd : hits p (d.working.profiles ++ d.pending) ≠ [])
    (ht : hits p (d.table t).rows.profiles ≠ []) : Agree t f d p := by
  refine Or.inr ⟨_, .rejected, add_of_rejected ho hd, ⟨h.overlay, h.distinct, h.apart, fun i hi => ?_⟩,
    rfl, Table.enter_of_rejected ho ht⟩
  rcases List.mem_append.mp hi with hi | hi
  · exact h.placed i hi
  · cases List.mem_singleton.mp hi

/-- A profile whose key no new row has. -/
theorem Sound.agree_of_none (h : Sound t f d) (hid : p.id = none) (hp : f p = true)
    (hplace : placeOf d.pending p = none) : Agree t f d p := by
  have htable := h.hits_table hp
  rw [hits_numbered hid h.distinct, hplace, Option.bind_none, Option.toList_none,
    List.append_nil] at htable
  have hpend := hits_pending_eq_nil hid hplace
  cases hw : hits p d.working.profiles with
  | nil =>
    rw [hw] at htable
    refine Or.inr ⟨_, .fresh d.pending.length, add_of_new hw hpend hplace hid,
      h.push hid hp hw hplace, rfl, ?_⟩
    rw [Table.enter_of_new hid htable, table, Overlay.Sound.nextId_table]
    exact congrArg Except.ok (Prod.ext rfl (h.overlay.push hid hp).2.symm)
  | cons row more =>
    rw [hw] at htable
    cases ho : p.owner with
    | dpc =>
      refine h.agree_of_rejected ho ?_ (by rw [htable]; nofun)
      rw [hits_append, hw]
      nofun
    | others =>
      cases more with
      | nil =>
        obtain ⟨id, hrow, hg, hk, -⟩ := h.overlay.exists_of_hits (hw ▸ List.mem_singleton_self row)
        obtain ⟨hs, ht⟩ := h.put hp hg hk
        refine Or.inr ⟨_, .existing id, add_of_hit ho hplace hw hrow, hs, rfl, ?_⟩
        rw [Table.enter_of_hit ho htable hrow]
        exact congrArg Except.ok (Prod.ext rfl ht.symm)
      | cons row' more =>
        exact Or.inl ⟨_, add_of_error ho hplace (resolve_of_many hw),
          Table.enter_of_error ho (resolve_of_many htable)⟩

/-- A profile with the key of a new row. -/
theorem Sound.agree_of_some {i : Nat} (h : Sound t f d) (hid : p.id = none) (hp : f p = true)
    (hplace : placeOf d.pending p = some i) : Agree t f d p := by
  obtain ⟨hi, hk⟩ := exists_of_placeOf hplace
  have htable := h.hits_table hp
  rw [hits_numbered hid h.distinct, h.hits_working_eq_nil (List.getElem_mem hi) hk, hplace,
    Option.bind_some, List.getElem?_eq_getElem hi, List.nil_append] at htable
  cases ho : p.owner with
  | dpc =>
    have hm : d.pending[i] ∈ hits p (d.working.profiles ++ d.pending) :=
      mem_hits.mpr ⟨List.mem_append_right _ (List.getElem_mem hi), Or.inl hid, hk⟩
    exact h.agree_of_rejected ho (List.ne_nil_of_mem hm) (by rw [htable]; nofun)
  | others =>
    obtain ⟨hs, w, hwi, -, ht⟩ := h.land hp hplace
    rw [List.getElem?_eq_getElem hi, Option.some.injEq] at hwi
    subst hwi
    refine Or.inr ⟨_, .fresh i, add_of_waiting ho hplace, hs, rfl, ?_⟩
    rw [Table.enter_of_hit ho htable rfl]
    exact congrArg Except.ok (Prod.ext rfl ht.symm)

/-- **The draft does what the table would do** with one more profile. -/
theorem Sound.agree (h : Sound t f d) (hid : p.id = none) (hp : f p = true) : Agree t f d p := by
  cases hplace : placeOf d.pending p with
  | none => exact h.agree_of_none hid hp hplace
  | some i => exact h.agree_of_some hid hp hplace

/-- **A whole draft does what the table does** when it enters the profiles one by one. -/
theorem foldlM_enterAll : ∀ {ps : List Profile} {d : Draft}, Sound t f d →
    (∀ p ∈ ps, p.id = none ∧ f p = true) →
    (∃ e, ps.foldlM add d = .error e ∧ (d.table t).enterAll ps = .error e) ∨
    ∃ d' slots, ps.foldlM add d = .ok d' ∧ Sound t f d' ∧ d'.slots = d.slots ++ slots ∧
      (d.table t).enterAll ps = .ok (slots.map (Slot.idIn t), d'.table t)
  | [], d, h, _ => Or.inr ⟨d, [], rfl, h, (List.append_nil _).symm, rfl⟩
  | p :: ps, d, h, hps => by
    obtain ⟨hid, hp⟩ := hps p List.mem_cons_self
    rw [List.foldlM_cons]
    rcases h.agree hid hp with ⟨e, hadd, henter⟩ | ⟨d₁, slot, hadd, h₁, hslots₁, henter⟩
    · exact Or.inl ⟨e, by rw [hadd]; rfl, Table.enterAll_cons_of_error ps henter⟩
    · rw [hadd]
      rcases foldlM_enterAll h₁ fun q hq => hps q (List.mem_cons_of_mem p hq) with
        ⟨e, hfold, hall⟩ | ⟨d₂, slots, hfold, h₂, hslots₂, hall⟩
      · exact Or.inl ⟨e, hfold, Table.enterAll_cons_of_error_tail henter hall⟩
      · refine Or.inr ⟨d₂, slot :: slots, hfold, h₂, ?_, ?_⟩
        · rw [hslots₂, hslots₁, List.append_assoc, List.singleton_append]
        · rw [Table.enterAll_cons_of_ok henter hall, List.map_cons]

/-- The ids that the batch hands out are those that the slots stand for. -/
theorem Sound.map_idOf (h : Sound t f d) :
    d.slots.map (idOf (t.nextIds d.pending.length)) = d.slots.map (Slot.idIn t) := by
  refine List.map_congr_left fun slot hslot => ?_
  cases slot with
  | rejected => rfl
  | existing id => rfl
  | fresh i =>
    have hi := h.placed i hslot
    rw [idOf, Slot.idIn, Table.nextIds, List.getElem?_map,
      List.getElem?_eq_getElem (by rwa [List.length_range]), List.getElem_range]
    rfl

end Draft

/-! ## The call -/

variable {setup : Setup} {caller : Caller} {target : Target} {ps : List Profile} {s : State Table}

/-- Some profile of the list has the row's operator. -/
theorem holds_numerics {p : Profile} : (Predicate.oneOf .numeric (ps.map (.text ·.numeric))).holds p =
    true ↔ ∃ q ∈ ps, q.numeric = p.numeric := by
  rw [Predicate.holds, List.any_map, List.any_eq_true]
  refine exists_congr fun q => and_congr_right fun _ => ?_
  show (Value.text q.numeric == Value.text p.numeric) = true ↔ _
  rw [beq_iff_eq, Value.text.injEq]

theorem id_normalized (setup : Setup) (partition : Partition) (subscription : Option Subscription)
    (p : Profile) : (normalized setup partition subscription p).id = none :=
  LegacyCodes.id_modernized _ _

/-- Drafting the profiles and carrying the draft out enters them one by one. -/
theorem perform_draft {qs : List Profile} (h : s.store.Valid) (hid : ∀ q ∈ qs, q.id = none) :
    (do
      let stored ← rows (.oneOf .numeric (qs.map (.text ·.numeric))) .idAscending
      let draft ← decided (Draft.ofProfiles stored qs)
      let outcome ← write draft.batch
      return draft.slots.map (Draft.idOf outcome.inserted) : Action Table _).perform s =
    (edits (Table.enterAll qs)).perform s := by
  let f := (Predicate.oneOf .numeric (qs.map (.text ·.numeric))).holds
  have hf (p q : Profile) (hk : p.key = q.key) : f p = f q := by
    rw [Bool.eq_iff_iff, holds_numerics, holds_numerics, Profile.numeric_eq_of_key_eq hk]
  have hqs : ∀ q ∈ qs, q.id = none ∧ f q = true := fun q hq =>
    ⟨hid q hq, holds_numerics.mpr ⟨q, hq, rfl⟩⟩
  have hstart := Draft.Sound.start h hf
  have htable : Draft.table s.store
      { working := Rows.ofProfiles (s.store.rows.profiles.filter f) } = s.store :=
    Overlay.table_copy _ _
  rw [Action.perform_bind, perform_rows, Table.scan_idAscending]
  show (decided (qs.foldlM Draft.add
    { working := Rows.ofProfiles (s.store.rows.profiles.filter f) }) >>= _ : Action Table _).perform s = _
  rw [Action.perform_bind, Action.perform_decided]
  rcases Draft.foldlM_enterAll hstart hqs with ⟨e, hfold, hall⟩ | ⟨d, slots, hfold, hd, hslots, hall⟩
  · rw [htable] at hall
    rw [hfold, perform_edits_of_error hall]
  · rw [htable] at hall
    obtain rfl : d.slots = slots := hslots
    have hwrite := perform_write (s := s) hd.overlay.apply_batch
    rw [hfold, perform_edits_of_ok hall]
    show (write d.batch >>= _ : Action Table _).perform s = _
    rw [Action.perform_bind, Draft.batch_eq, hwrite, ← hd.map_idOf]
    rfl

theorem perform_insertProfiles_of_error {e : Error}
    (ha : partitionFor setup caller target .insert s.enforced = .error e) :
    (insertProfiles setup caller target ps).perform s = (.error e, s) := by
  rw [insertProfiles, Action.perform_bind, perform_authorizeRows_eq, ha]

theorem perform_insertProfiles_row {scope : Scope} {id : RowId} {partition : Partition}
    (ha : partitionFor setup caller (.row scope id) .insert s.enforced = .ok partition) :
    (insertProfiles setup caller (.row scope id) ps).perform s = (.error .insertIntoRow, s) := by
  rw [insertProfiles, Action.perform_bind, perform_authorizeRows_eq, ha]
  rfl

/-- **An insert into a table in memory enters its profiles one by one.** -/
theorem perform_insertProfiles {scope : Scope} {subscription : Option Subscription}
    {partition : Partition} (h : s.store.Valid)
    (ha : partitionFor setup caller (.table scope subscription) .insert s.enforced = .ok partition) :
    (insertProfiles setup caller (.table scope subscription) ps).perform s =
      (edits (Table.enterAll (ps.map (normalized setup partition subscription)))).perform s := by
  rw [insertProfiles, Action.perform_bind, perform_authorizeRows_eq, ha]
  show (if ps.isEmpty then _ else _ : Action Table _).perform s = _
  split
  · rename_i hempty
    rw [List.isEmpty_iff.mp hempty]
    rfl
  · refine perform_draft h fun q hq => ?_
    obtain ⟨p, -, rfl⟩ := List.mem_map.mp hq
    exact id_normalized ..

/-- What an insert leaves of the table: the table as it was, or all profiles are entered in their final
form. -/
theorem store_of_perform_insertProfiles (setup : Setup) (caller : Caller) (target : Target)
    (ps : List Profile) (h : s.store.Valid) :
    ((insertProfiles setup caller target ps).perform s).2.store = s.store ∨
      ∃ partition subscription ids, partitionFor setup caller target .insert s.enforced = .ok partition ∧
        s.store.enterAll (ps.map (normalized setup partition subscription)) =
          .ok (ids, ((insertProfiles setup caller target ps).perform s).2.store) := by
  cases ha : partitionFor setup caller target .insert s.enforced with
  | error e =>
    rw [perform_insertProfiles_of_error ha]
    exact Or.inl rfl
  | ok partition =>
    cases target with
    | row scope id =>
      rw [perform_insertProfiles_row ha]
      exact Or.inl rfl
    | table scope subscription =>
      rw [perform_insertProfiles h ha]
      cases hall : s.store.enterAll (ps.map (normalized setup partition subscription)) with
      | error e =>
        rw [perform_edits_of_error hall]
        exact Or.inl rfl
      | ok r =>
        rw [perform_edits_of_ok hall]
        exact Or.inr ⟨partition, subscription, r.1, rfl, hall⟩

end Registry

end ApnRegistry
