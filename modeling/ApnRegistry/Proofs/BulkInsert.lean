import ApnRegistry.Proofs.Insertion

/-!
# Many profiles at once, or one after the other

A bulk insert keeps its own copy of the rows and writes once; single inserts read the table again for
every profile. Both enter the profiles one by one (`perform_insert`, `perform_bulkInsert`), so that
both succeed or neither does, and they leave the same table (`bulkInsert_eq_inserts`).
-/

namespace ApnRegistry.Registry

variable {setup : Setup} {caller : Caller} {scope : Scope} {subscription : Option Subscription}
  {partition : Partition} {p : Profile} {ps : List Profile} {s : State Table} {t : Table} {e : Error}

/-! ## Success -/

theorem perform_insert {o : Option RowId} (h : s.store.Valid)
    (ha : partitionFor setup caller (.table scope subscription) .insert s.enforced = .ok partition)
    (hp : s.store.enter (normalized setup partition subscription p) = .ok (o, t)) :
    ∃ board, (insert setup caller (.table scope subscription) p).perform s =
      (.ok o, { s with store := t, board := board }) := by
  have hone : s.store.enterAll ([p].map (normalized setup partition subscription)) = .ok ([o], t) :=
    Table.enterAll_cons_of_ok hp rfl
  rw [insert, Action.perform_bind, perform_insertProfiles h ha, perform_edits_of_ok hone]
  cases o with
  | none => exact ⟨s.board, rfl⟩
  | some id => exact ⟨s.board.post (.apnTable subscription), rfl⟩

theorem perform_bulkInsert {ids : List (Option RowId)} (h : s.store.Valid)
    (ha : partitionFor setup caller (.table scope subscription) .insert s.enforced = .ok partition)
    (hps : s.store.enterAll (ps.map (normalized setup partition subscription)) = .ok (ids, t)) :
    ∃ board, (bulkInsert setup caller (.table scope subscription) ps).perform s =
      (.ok (ids.countP (·.isSome)), { s with store := t, board := board }) := by
  rw [bulkInsert, Action.perform_bind, perform_insertProfiles h ha, perform_edits_of_ok hps]
  show ∃ board, (if 0 < ids.countP (·.isSome) then _ else _ : Action Table _).perform _ = _
  split
  · exact ⟨s.board.post (.apnTable subscription), rfl⟩
  · exact ⟨s.board, rfl⟩

/-! ## Failure -/

/-- A call that starts with an insert fails as the insert does. -/
theorem perform_insert_of_error {target : Target}
    (hi : (insertProfiles setup caller target [p]).perform s = (.error e, s)) :
    (insert setup caller target p).perform s = (.error e, s) := by
  rw [insert, Action.perform_bind, hi]

theorem perform_bulkInsert_of_error {target : Target}
    (hi : (insertProfiles setup caller target ps).perform s = (.error e, s)) :
    (bulkInsert setup caller target ps).perform s = (.error e, s) := by
  rw [bulkInsert, Action.perform_bind, hi]

theorem perform_insertProfiles_of_enter_error (h : s.store.Valid)
    (ha : partitionFor setup caller (.table scope subscription) .insert s.enforced = .ok partition)
    (hps : s.store.enterAll (ps.map (normalized setup partition subscription)) = .error e) :
    (insertProfiles setup caller (.table scope subscription) ps).perform s = (.error e, s) := by
  rw [perform_insertProfiles h ha, perform_edits_of_error hps]

/-! ## One after the other -/

/-- Single inserts, one after the other, enter the profiles one by one. -/
theorem perform_inserts : ∀ {ps : List Profile} {s : State Table} {ids : List (Option RowId)},
    s.store.Valid →
    partitionFor setup caller (.table scope subscription) .insert s.enforced = .ok partition →
    s.store.enterAll (ps.map (normalized setup partition subscription)) = .ok (ids, t) →
    ∃ board, (ps.mapM (insert setup caller (.table scope subscription))).perform s =
      (.ok ids, { s with store := t, board := board })
  | [], s, ids, _, _, hps => by
    cases hps
    exact ⟨s.board, rfl⟩
  | p :: ps, s, ids, h, ha, hps => by
    rw [List.mapM_cons, Action.perform_bind]
    rw [List.map_cons] at hps
    cases hp : s.store.enter (normalized setup partition subscription p) with
    | error e =>
      rw [Table.enterAll_cons_of_error _ hp] at hps
      cases hps
    | ok r =>
      obtain ⟨o, t₁⟩ := r
      obtain ⟨board, hperform⟩ := perform_insert h ha hp
      have h₁ : t₁.Valid := (Table.moves_of_enter h (id_normalized ..) hp).valid h
      cases hrest : t₁.enterAll (ps.map (normalized setup partition subscription)) with
      | error e =>
        rw [Table.enterAll_cons_of_error_tail hp hrest] at hps
        cases hps
      | ok r =>
        obtain ⟨os, t₂⟩ := r
        rw [Table.enterAll_cons_of_ok hp hrest] at hps
        cases hps
        obtain ⟨board', hrest'⟩ :=
          perform_inserts (s := { s with store := t₁, board := board }) h₁ ha hrest
        refine ⟨board', ?_⟩
        rw [hperform]
        show (List.mapM _ ps >>= _ : Action Table _).perform _ = _
        rw [Action.perform_bind, hrest']
        rfl

/-- Where some profile cannot be entered, its single insert fails. -/
theorem perform_inserts_of_error : ∀ {ps : List Profile} {s : State Table}, s.store.Valid →
    partitionFor setup caller (.table scope subscription) .insert s.enforced = .ok partition →
    s.store.enterAll (ps.map (normalized setup partition subscription)) = .error e →
    ∃ s', (ps.mapM (insert setup caller (.table scope subscription))).perform s = (.error e, s')
  | [], _, _, _, hps => nomatch hps
  | p :: ps, s, h, ha, hps => by
    rw [List.mapM_cons, Action.perform_bind]
    rw [List.map_cons] at hps
    cases hp : s.store.enter (normalized setup partition subscription p) with
    | error e' =>
      have hone : s.store.enterAll ([p].map (normalized setup partition subscription)) = .error e' :=
        Table.enterAll_cons_of_error [] hp
      rw [Table.enterAll_cons_of_error _ hp] at hps
      cases hps
      rw [perform_insert_of_error (perform_insertProfiles_of_enter_error h ha hone)]
      exact ⟨s, rfl⟩
    | ok r =>
      obtain ⟨o, t₁⟩ := r
      obtain ⟨board, hperform⟩ := perform_insert h ha hp
      have h₁ : t₁.Valid := (Table.moves_of_enter h (id_normalized ..) hp).valid h
      rw [hperform]
      cases hrest : t₁.enterAll (ps.map (normalized setup partition subscription)) with
      | ok r =>
        rw [Table.enterAll_cons_of_ok hp hrest] at hps
        cases hps
      | error e' =>
        rw [Table.enterAll_cons_of_error_tail hp hrest] at hps
        cases hps
        obtain ⟨s', hrest'⟩ :=
          perform_inserts_of_error (s := { s with store := t₁, board := board }) h₁ ha hrest
        refine ⟨s', ?_⟩
        show (List.mapM _ ps >>= _ : Action Table _).perform _ = _
        rw [Action.perform_bind, hrest']

/-- **A bulk insert is its single inserts**: it succeeds iff they all do, one after the other, and
then the tables are the same, and it counts those that were given an id. -/
theorem bulkInsert_eq_inserts (setup : Setup) (caller : Caller) (scope : Scope)
    (subscription : Option Subscription) (ps : List Profile) (s : State Table)
    (h : s.store.Valid) (hps : ps ≠ []) :
    let bulk := (bulkInsert setup caller (.table scope subscription) ps).perform s
    let single := (ps.mapM (insert setup caller (.table scope subscription))).perform s
    ((∃ n, bulk.1 = .ok n) ↔ ∃ ids, single.1 = .ok ids) ∧
    ∀ n ids, bulk.1 = .ok n → single.1 = .ok ids →
      bulk.2.store = single.2.store ∧ n = ids.countP (·.isSome) := by
  intro bulk single
  cases ha : partitionFor setup caller (.table scope subscription) .insert s.enforced with
  | error e =>
    have hbulk : bulk = (.error e, s) :=
      perform_bulkInsert_of_error (perform_insertProfiles_of_error ha)
    have hsingle : single = (.error e, s) := by
      cases ps with
      | nil => exact absurd rfl hps
      | cons p ps =>
        show (List.mapM _ (p :: ps) : Action Table _).perform s = _
        rw [List.mapM_cons, Action.perform_bind,
          perform_insert_of_error (perform_insertProfiles_of_error ha)]
    rw [hbulk, hsingle]
    exact ⟨⟨nofun, nofun⟩, nofun⟩
  | ok partition =>
    cases hall : s.store.enterAll (ps.map (normalized setup partition subscription)) with
    | error e =>
      have hbulk : bulk = (.error e, s) :=
        perform_bulkInsert_of_error (perform_insertProfiles_of_enter_error h ha hall)
      obtain ⟨s', hsingle⟩ := perform_inserts_of_error h ha hall
      rw [hbulk, show single = (.error e, s') from hsingle]
      exact ⟨⟨nofun, nofun⟩, nofun⟩
    | ok r =>
      obtain ⟨ids, t⟩ := r
      obtain ⟨board, hbulk⟩ := perform_bulkInsert h ha hall
      obtain ⟨board', hsingle⟩ := perform_inserts h ha hall
      rw [show bulk = _ from hbulk, show single = _ from hsingle]
      refine ⟨⟨fun _ => ⟨_, rfl⟩, fun _ => ⟨_, rfl⟩⟩, fun n os hn hos => ?_⟩
      cases hn
      cases hos
      exact ⟨rfl, rfl⟩

/-- The first profile lands on the stored row, and the third on the second. Each of them gets an id, and two
rows are stored in the end. -/
theorem bulkInsert_eq_inserts_twice :
    let s : State Table := .initial {} (.ofProfiles [{ apn := "web" }])
    let ps : List Profile := [{ apn := "web" }, { apn := "mms" }, { apn := "mms", name := "MMS" }]
    s.store.Valid ∧ ps ≠ [] ∧ ∃ s₁ s₂ : State Table,
      (bulkInsert {} .system (.table .general none) ps).perform s = (.ok 3, s₁) ∧
      (ps.mapM (insert {} .system (.table .general none))).perform s =
        (.ok [some ⟨1⟩, some ⟨2⟩, some ⟨2⟩], s₂) ∧
      s₁.store = s₂.store ∧
      s₁.store.rows.profiles =
        [{ apn := "web", id := some ⟨1⟩ }, { apn := "mms", name := "MMS", id := some ⟨2⟩ }] := by
  intro s ps
  have hv : s.store.Valid := .ofProfiles _
  have hne : ps ≠ [] := List.cons_ne_nil _ _
  obtain ⟨hiff, hsame⟩ := bulkInsert_eq_inserts {} .system .general none ps s hv hne
  have hsingle : ((ps.mapM (insert {} .system (.table .general none))).perform s).1 =
      .ok [some ⟨1⟩, some ⟨2⟩, some ⟨2⟩] := by decide +kernel
  have hrows : ((bulkInsert {} .system (.table .general none) ps).perform s).2.store.rows.profiles =
      [{ apn := "web", id := some ⟨1⟩ }, { apn := "mms", name := "MMS", id := some ⟨2⟩ }] := by
    decide +kernel
  -- The calls are named by what they lead to, so that nothing below runs them again.
  rcases hbulk : (bulkInsert {} .system (.table .general none) ps).perform s with ⟨result, s₁⟩
  rcases hinserts : (ps.mapM (insert {} .system (.table .general none))).perform s with ⟨results, s₂⟩
  rw [hbulk, hinserts] at hiff hsame
  rw [hinserts] at hsingle
  rw [hbulk] at hrows
  obtain ⟨n, hn⟩ := hiff.mpr ⟨_, hsingle⟩
  obtain ⟨hstore, hcount⟩ := hsame n _ hn hsingle
  have hresult : result = .ok 3 := hn.trans (congrArg Except.ok hcount)
  exact ⟨hv, hne, s₁, s₂, congrArg (·, s₁) hresult, congrArg (·, s₂) hsingle, hstore, hrows⟩

end ApnRegistry.Registry
