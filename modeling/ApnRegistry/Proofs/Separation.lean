import ApnRegistry.Proofs.Confinement
import ApnRegistry.Proofs.Owners

/-!
# Neither partition learns from the other

Two states *agree* on an owner if they differ in the rows of other owners at most, and on their
boards. A call is *alike* in two such states if it gives the same result or failure, posts the same
notices, and leads to states that agree again. What a call does for one owner is local to that owner
(`Table.Local`), so a request that stays in one partition is alike wherever states agree on it.

Results:
* `Action.Alike.bind`: calls one after the other.
* `Request.separation`: requests through the general scope are alike in states that agree on the
  ordinary rows, and requests through the controller's scope in states that agree on its rows.
-/

namespace ApnRegistry

/-- The board after some notices. -/
def NoticeBoard.postAll (b : NoticeBoard) (notices : List Notice) : NoticeBoard :=
  notices.foldl post b

namespace Registry

open Table

variable {setup : Setup} {o : Owner} {s₁ s₂ : State Table} {α β : Type} {caller : Caller}
  {target : Target} {q : Predicate} {ps : List Profile} {sub : Subscription}

/-- The states agree on everything but the rows of other owners and the boards. -/
structure State.AgreeOn (o : Owner) (s₁ s₂ : State Table) : Prop where
  rows : s₁.store.rows.filter (·.2.owner == o) = s₂.store.rows.filter (·.2.owner == o)
  nextId : s₁.store.nextId = s₂.store.nextId
  enforced : s₁.enforced = s₂.enforced
  preferences : s₁.preferences = s₂.preferences

/-- States over valid tables that agree. -/
structure State.Twins (o : Owner) (s₁ s₂ : State Table) : Prop extends State.AgreeOn o s₁ s₂ where
  left : s₁.store.Valid
  right : s₂.store.Valid

theorem State.AgreeOn.only (h : State.AgreeOn o s₁ s₂) : s₁.store.only o = s₂.store.only o :=
  Table.mk.injEq .. ▸ ⟨h.rows, h.nextId⟩

/-- The states with other tables. -/
theorem State.Twins.withStore (h : State.Twins o s₁ s₂) {t₁ t₂ : Table}
    (ht : t₁.only o = t₂.only o) (hv₁ : t₁.Valid) (hv₂ : t₂.Valid) :
    State.Twins o { s₁ with store := t₁ } { s₂ with store := t₂ } where
  rows := (Table.mk.inj ht).1
  nextId := (Table.mk.inj ht).2
  enforced := h.enforced
  preferences := h.preferences
  left := hv₁
  right := hv₂

/-- In both states the call gives the same result, posts the same notices, and leads to states that
agree. -/
def Action.Alike (o : Owner) (a : Action Table α) (s₁ s₂ : State Table) : Prop :=
  ∃ result s₁' s₂' notices, a.perform s₁ = (result, s₁') ∧ a.perform s₂ = (result, s₂') ∧
    State.Twins o s₁' s₂' ∧
    s₁'.board = s₁.board.postAll notices ∧ s₂'.board = s₂.board.postAll notices

namespace Action

theorem Alike.of_unchanged {a : Action Table α} {result : Except Error α} (h : State.Twins o s₁ s₂)
    (h₁ : a.perform s₁ = (result, s₁)) (h₂ : a.perform s₂ = (result, s₂)) : a.Alike o s₁ s₂ :=
  ⟨result, s₁, s₂, [], h₁, h₂, h, rfl, rfl⟩

theorem Alike.congr {a b : Action Table α} (h₁ : a.perform s₁ = b.perform s₁)
    (h₂ : a.perform s₂ = b.perform s₂) (h : b.Alike o s₁ s₂) : a.Alike o s₁ s₂ := by
  rw [Alike, h₁, h₂]
  exact h

/-- **Alike calls one after the other are alike.** -/
theorem Alike.bind {a : Action Table α} {f : α → Action Table β} (h : a.Alike o s₁ s₂)
    (hf : ∀ x s₁' s₂', a.perform s₁ = (.ok x, s₁') → a.perform s₂ = (.ok x, s₂') →
      State.Twins o s₁' s₂' → (f x).Alike o s₁' s₂') : (a >>= f).Alike o s₁ s₂ := by
  obtain ⟨result, s₁', s₂', notices, h₁, h₂, ht, hb₁, hb₂⟩ := h
  cases result with
  | error e =>
    refine ⟨.error e, s₁', s₂', notices, ?_, ?_, ht, hb₁, hb₂⟩
    · rw [perform_bind, h₁]
    · rw [perform_bind, h₂]
  | ok x =>
    obtain ⟨result, t₁, t₂, more, hf₁, hf₂, ht, hc₁, hc₂⟩ := hf x s₁' s₂' h₁ h₂ ht
    refine ⟨result, t₁, t₂, notices ++ more, ?_, ?_, ht, ?_, ?_⟩
    · rw [perform_bind, h₁]
      exact hf₁
    · rw [perform_bind, h₂]
      exact hf₂
    · rw [hc₁, hb₁, NoticeBoard.postAll, NoticeBoard.postAll, NoticeBoard.postAll, List.foldl_append]
    · rw [hc₂, hb₂, NoticeBoard.postAll, NoticeBoard.postAll, NoticeBoard.postAll, List.foldl_append]

theorem Alike.map {a : Action Table α} (f : α → β) (h : a.Alike o s₁ s₂) :
    (f <$> a).Alike o s₁ s₂ := by
  obtain ⟨result, s₁', s₂', notices, h₁, h₂, ht, hb₁, hb₂⟩ := h
  refine ⟨result.map f, s₁', s₂', notices, ?_, ?_, ht, hb₁, hb₂⟩
  · rw [perform_map, h₁]
  · rw [perform_map, h₂]

theorem alike_pure (h : State.Twins o s₁ s₂) (a : α) : (pure a : Action Table α).Alike o s₁ s₂ :=
  .of_unchanged h rfl rfl

theorem alike_publish (h : State.Twins o s₁ s₂) (n : Notice) : (publish n).Alike o s₁ s₂ :=
  ⟨.ok (), _, _, [n], rfl, rfl,
    ⟨⟨h.rows, h.nextId, h.enforced, h.preferences⟩, h.left, h.right⟩, rfl, rfl⟩

theorem alike_rows (h : State.Twins o s₁ s₂) (hq : ∀ p, q.holds p = true → p.owner = o)
    (order : Order) : (rows q order : Action Table _).Alike o s₁ s₂ := by
  refine .of_unchanged h (perform_rows s₁ q order) ?_
  rw [perform_rows, ← scan_only hq order s₁.store, h.only, scan_only hq]

/-- A change that is local to the owner. -/
theorem alike_edits {f : Table → Except Error (α × Table)} (h : State.Twins o s₁ s₂)
    (hf : Local o f) (hv : ∀ t a t', t.Valid → f t = .ok (a, t') → t'.Valid) :
    (edits f).Alike o s₁ s₂ := by
  have hseen : seen o (f s₁.store) = seen o (f s₂.store) := by
    rw [← hf s₁.store h.left, h.only, hf s₂.store h.right]
  cases hf₁ : f s₁.store with
  | error e =>
    cases hf₂ : f s₂.store with
    | error e' =>
      rw [hf₁, hf₂] at hseen
      cases hseen
      exact .of_unchanged h (perform_edits_of_error hf₁) (perform_edits_of_error hf₂)
    | ok r =>
      rw [hf₁, hf₂] at hseen
      cases hseen
  | ok r =>
    obtain ⟨a, t₁⟩ := r
    cases hf₂ : f s₂.store with
    | error e =>
      rw [hf₁, hf₂] at hseen
      cases hseen
    | ok r =>
      obtain ⟨b, t₂⟩ := r
      rw [hf₁, hf₂] at hseen
      obtain ⟨rfl, ht⟩ := Prod.mk.inj (Except.ok.inj hseen)
      exact ⟨.ok a, _, _, [], perform_edits_of_ok hf₁, perform_edits_of_ok hf₂,
        h.withStore ht (hv _ _ _ h.left hf₁) (hv _ _ _ h.right hf₂), rfl, rfl⟩

/-- A call may end with a notice. -/
theorem alike_publish_if {n : Notice} {a : α} {c : Prop} [Decidable c] (h : State.Twins o s₁ s₂) :
    (if c then publish n >>= fun _ => pure a else pure a : Action Table α).Alike o s₁ s₂ := by
  split
  · exact (alike_publish h n).bind fun _ _ _ _ _ ht => alike_pure ht a
  · exact alike_pure h a

theorem alike_announcing {a : Action Table Nat} {subscription : Option Subscription}
    (h : a.Alike o s₁ s₂) : (announcing subscription a).Alike o s₁ s₂ :=
  h.bind fun _ _ _ _ _ ht => alike_publish_if ht

end Action

open Registry.Action

/-! ## The calls on rows -/

theorem alike_insertProfiles (h : State.Twins o s₁ s₂)
    (ho : Policy.ownerOf target.scope s₁.enforced = o) :
    (insertProfiles setup caller target ps).Alike o s₁ s₂ := by
  cases ha : partitionFor setup caller target .insert s₁.enforced with
  | error e =>
    exact .of_unchanged h (perform_insertProfiles_of_error ha)
      (perform_insertProfiles_of_error (h.enforced ▸ ha))
  | ok partition =>
    cases target with
    | row scope id =>
      exact .of_unchanged h (perform_insertProfiles_row ha)
        (perform_insertProfiles_row (h.enforced ▸ ha))
    | table scope subscription =>
      have hnormal : ∀ p ∈ ps.map (normalized setup partition subscription),
          p.id = none ∧ p.owner = o := fun p hp => by
        obtain ⟨p, -, rfl⟩ := List.mem_map.mp hp
        refine ⟨id_normalized .., ?_⟩
        rw [owner_normalized (forcedOwner_of_partitionFor ha), owner_of_partitionFor ha, ho]
      refine .congr (perform_insertProfiles h.left ha)
        (perform_insertProfiles h.right (h.enforced ▸ ha)) (alike_edits h ?_ fun t _ t' hv ht => ?_)
      · exact local_enterAll (fun p hp => (hnormal p hp).1) fun p hp => (hnormal p hp).2
      · exact (moves_of_enterAll hv (fun p hp => (hnormal p hp).1) ht).valid hv

theorem alike_insert {p : Profile} (h : State.Twins o s₁ s₂)
    (ho : Policy.ownerOf target.scope s₁.enforced = o) :
    (insert setup caller target p).Alike o s₁ s₂ :=
  (alike_insertProfiles h ho).bind fun _ _ _ _ _ ht => alike_publish_if ht

theorem alike_bulkInsert (h : State.Twins o s₁ s₂)
    (ho : Policy.ownerOf target.scope s₁.enforced = o) :
    (bulkInsert setup caller target ps).Alike o s₁ s₂ :=
  (alike_insertProfiles h ho).bind fun _ _ _ _ _ ht => alike_publish_if ht

theorem alike_update {changes : Update} (h : State.Twins o s₁ s₂)
    (ho : Policy.ownerOf target.scope s₁.enforced = o) :
    (update setup caller target q changes).Alike o s₁ s₂ := by
  cases ha : partitionFor setup caller target .update s₁.enforced with
  | error e =>
    exact .of_unchanged h (perform_update_of_error ha) (perform_update_of_error (h.enforced ▸ ha))
  | ok partition =>
    cases hc : changes.isEmpty with
    | true =>
      exact .of_unchanged h (perform_update_of_isEmpty ha hc)
        (perform_update_of_isEmpty (h.enforced ▸ ha) hc)
    | false =>
      have hq (p : Profile) (hp : (selected setup partition target q).holds p = true) : p.owner = o :=
        (holds_selected.mp hp).1.trans ((owner_of_partitionFor ha).trans ho)
      refine .congr (perform_update h.left ha hc) (perform_update h.right (h.enforced ▸ ha) hc)
        (alike_announcing (alike_edits h (local_updateWhere hq) fun t _ t' hv ht => ?_))
      exact (moves_of_updateWhere (S := fun _ => True) hv (fun _ _ => trivial) ht).valid hv

theorem alike_delete (h : State.Twins o s₁ s₂) (ho : Policy.ownerOf target.scope s₁.enforced = o) :
    (delete setup caller target q).Alike o s₁ s₂ := by
  cases ha : partitionFor setup caller target .delete s₁.enforced with
  | error e =>
    exact .of_unchanged h (perform_delete_of_error ha) (perform_delete_of_error (h.enforced ▸ ha))
  | ok partition =>
    have hq (p : Profile) (hp : (selected setup partition target q).holds p = true) : p.owner = o :=
      (holds_selected.mp hp).1.trans ((owner_of_partitionFor ha).trans ho)
    refine .congr (perform_delete h.left ha) (perform_delete h.right (h.enforced ▸ ha))
      (alike_announcing (alike_edits h (local_deleteWhere hq) fun t _ t' hv ht => ?_))
    exact (moves_of_deleteWhere (S := fun _ => True) hv (fun _ _ => trivial) ht).valid hv

theorem alike_modernizeRows {known : List String} {found : List Profile} (h : State.Twins o s₁ s₂)
    (ho : ∀ row ∈ found, row.owner = o) : (modernizeRows known found).Alike o s₁ s₂ := by
  have hv {t : Table} (hv : t.Valid) : (t.refreshAll known found).2.Valid :=
    hv.refreshAll known found
  have h₁ := refreshAll_only known h.left ho
  have h₂ := refreshAll_only known h.right ho
  rw [h.only, h₂] at h₁
  obtain ⟨hresult, htable⟩ := Prod.mk.inj h₁
  refine ⟨(refreshAll known found s₁.store).1, _, _, [], perform_modernizeRows known found h.left, ?_,
    h.withStore htable.symm (hv h.left) (hv h.right), rfl, rfl⟩
  rw [perform_modernizeRows known found h.right, perform_onStore, hresult]

theorem alike_currentRows {partition : Partition} {order : Order} (h : State.Twins o s₁ s₂)
    (ho : partition.owner = o) : (currentRows setup partition order).Alike o s₁ s₂ := by
  have hq (p : Profile) (hp : partition.predicate.holds p = true) : p.owner = o :=
    ((Partition.holds_predicate _ _).mp hp).trans ho
  refine (alike_rows h hq order).bind fun found s₁' s₂' hfound _ ht => ?_
  have hmem : ∀ row ∈ found, row.owner = o := fun row hr => by
    rw [perform_rows] at hfound
    cases hfound
    exact hq row (mem_scan.mp hr).2
  show (if setup.config.lazyMccMncMigration then _ else _ : Action Table _).Alike o s₁' s₂'
  split
  · refine (alike_modernizeRows ht hmem).bind fun n t₁ t₂ _ _ ht => ?_
    show (if 0 < n then _ else _ : Action Table _).Alike o t₁ t₂
    split
    · exact (alike_rows ht hq order).bind fun rows _ _ _ _ ht => alike_pure ht rows
    · exact alike_pure ht found
  · exact alike_pure ht found

theorem alike_query {order : Order} (h : State.Twins o s₁ s₂)
    (ho : Policy.ownerOf target.scope s₁.enforced = o) :
    (query setup caller target q order).Alike o s₁ s₂ := by
  have hauth : (authorizeRows setup caller target .query).Alike o s₁ s₂ :=
    .of_unchanged h (perform_authorizeRows_eq ..) (h.enforced ▸ perform_authorizeRows_eq ..)
  refine hauth.bind fun partition s₁' s₂' ha _ ht => ?_
  rw [perform_authorizeRows_eq] at ha
  obtain ⟨ha, -⟩ := Prod.mk.inj ha
  exact (alike_currentRows ht ((owner_of_partitionFor ha).trans ho)).bind
    fun _ _ _ _ _ ht => alike_pure ht _

/-! ## The calls on the ordinary rows -/

/-- Only ordinary rows can be preferred. -/
theorem State.Twins.preferable (h : State.Twins .others s₁ s₂) (id : RowId) :
    s₁.store.preferable id = s₂.store.preferable id := by
  have honly {t : Table} (hv : t.Valid) : (t.only .others).preferable id = t.preferable id := by
    rw [Table.preferable, Table.preferable, hv.get?_only, Option.filter_filter]
    refine congrFun (congrArg Option.filter (funext fun p => ?_)) _
    rw [Selection.isPreferable, Bool.and_comm p.isVisible, ← Bool.and_assoc, Bool.and_self]
  rw [← honly h.left, h.only, honly h.right]

theorem alike_authorize {scope : Scope} {verb : Verb} (h : State.Twins o s₁ s₂) :
    (authorize setup caller scope verb : Action Table _).Alike o s₁ s₂ :=
  .of_unchanged h (perform_authorize ..) (h.enforced ▸ perform_authorize ..)

/-- Preferences may change where they are the same. -/
theorem alike_modify (h : State.Twins o s₁ s₂) (f : Preferences → Preferences) :
    (modify fun st => { st with preferences := f st.preferences } : Action Table PUnit).Alike o s₁ s₂ :=
  ⟨.ok ⟨⟩, _, _, [], rfl, rfl,
    ⟨⟨h.rows, h.nextId, h.enforced, congrArg f h.preferences⟩, h.left, h.right⟩, rfl, rfl⟩

theorem alike_preferred (h : State.Twins .others s₁ s₂) :
    (preferred setup caller sub).Alike .others s₁ s₂ := by
  refine .of_unchanged h (perform_preferred setup caller sub s₁) ?_
  rw [perform_preferred, h.enforced, h.preferences, show s₁.store.preferable = s₂.store.preferable from
    funext h.preferable]

theorem alike_setPreferred {id : RowId} (h : State.Twins .others s₁ s₂) :
    (setPreferred setup caller sub id).Alike .others s₁ s₂ := by
  cases ha : setup.policy.authorize caller .general .update s₁.enforced with
  | error e =>
    exact .of_unchanged h (perform_setPreferred_of_error ha)
      (perform_setPreferred_of_error (h.enforced ▸ ha))
  | ok partition =>
    cases hp : s₁.store.preferable id with
    | none =>
      exact .of_unchanged h (perform_setPreferred_of_none ha hp)
        (perform_setPreferred_of_none (h.enforced ▸ ha) (h.preferable id ▸ hp))
    | some p =>
      refine ⟨_, _, _, [.apnTable (some sub)], perform_setPreferred_of_some ha hp,
        perform_setPreferred_of_some (h.enforced ▸ ha) (h.preferable id ▸ hp), ?_, rfl, rfl⟩
      exact ⟨⟨h.rows, h.nextId, h.enforced, congrArg (Preferences.set · sub id) h.preferences⟩,
        h.left, h.right⟩

theorem alike_clearPreferred (h : State.Twins o s₁ s₂) :
    (clearPreferred setup caller sub).Alike o s₁ s₂ := by
  refine (alike_authorize h).bind fun _ s₁' s₂' _ _ ht => ?_
  have hhad : (s₁'.preferences.get? sub).isSome = (s₂'.preferences.get? sub).isSome := by
    rw [ht.preferences]
  have hget : (do return ((← get).preferences.get? sub).isSome : Action Table Bool).Alike o s₁' s₂' :=
    .of_unchanged ht rfl (congrArg (fun b => (Except.ok b, s₂')) hhad.symm)
  refine hget.bind (f := fun had => do
    modify fun st => { st with preferences := st.preferences.clear sub }
    if had then publish (.apnTable (some sub))
    return had) fun had t₁ t₂ _ _ ht => ?_
  exact (alike_modify ht (·.clear sub)).bind fun _ _ _ _ _ ht => alike_publish_if ht

theorem alike_subscriptionRows (h : State.Twins .others s₁ s₂) :
    (subscriptionRows setup caller sub).Alike .others s₁ s₂ :=
  alike_query h rfl

theorem alike_apnSet (h : State.Twins .others s₁ s₂) :
    (apnSet setup caller sub).Alike .others s₁ s₂ :=
  (alike_subscriptionRows h).bind fun _ _ _ _ _ ht =>
    (alike_preferred ht).bind fun _ _ _ _ _ ht => alike_pure ht _

theorem alike_simApnList (h : State.Twins .others s₁ s₂) :
    (simApnList setup caller sub).Alike .others s₁ s₂ := by
  rw [simApnList_eq]
  exact (alike_subscriptionRows h).bind fun _ _ _ _ _ ht => .of_unchanged ht rfl rfl

theorem alike_restoreToDefault (h : State.Twins .others s₁ s₂) :
    (restoreToDefault setup caller sub).Alike .others s₁ s₂ := by
  refine (alike_authorize h).bind fun _ s₁' s₂' _ _ ht => ?_
  have hrows (e : Restore.Extent) (retries : Nat) :
      (restoreRows setup e retries).Alike .others s₁' s₂' :=
    .congr (perform_restoreRows setup e retries ht.left) (perform_restoreRows setup e retries ht.right)
      (alike_edits ht local_restored fun t _ t' hv hr => (moves_of_restored hv hr).valid hv)
  refine (hrows _ _).bind fun report t₁ t₂ _ _ ht => ?_
  refine (alike_modify ht fun ps =>
    if (extentOf setup.device sub).subscription.isSome then ps.clear sub else []).bind
      fun _ _ _ _ _ ht => ?_
  exact (alike_publish ht _).bind fun _ _ _ _ _ ht =>
    (alike_publish ht _).bind fun _ _ _ _ _ ht => alike_pure ht report

/-! ## Requests -/

/-- The scope whose rows are the owner's, whatever the enforcement flag. -/
def scopeOf : Owner → Scope
  | .others => .general
  | .dpc => .dpc

theorem ownerOf_scopeOf (o : Owner) (enforced : Bool) : Policy.ownerOf (scopeOf o) enforced = o := by
  cases o with
  | others => rfl
  | dpc => rfl

/-- The request is made through the scope of the owner. Requests for a subscription go through the
general scope; those for the whole table and for the flag go through neither. -/
def Request.staysIn (o : Owner) : Request → Prop
  | .query _ target _ _ => target.scope = scopeOf o
  | .insert _ target _ => target.scope = scopeOf o
  | .bulkInsert _ target _ => target.scope = scopeOf o
  | .update _ target _ _ => target.scope = scopeOf o
  | .delete _ target _ => target.scope = scopeOf o
  | .preferred .. | .setPreferred .. | .clearPreferred .. | .apnSet .. | .simApnList ..
  | .restoreToDefault .. => o = .others
  | .migrateAll _ | .enforced _ | .setEnforced .. => False

theorem Request.alike {r : Request} (hr : r.staysIn o) (h : State.Twins o s₁ s₂) :
    (r.action setup).Alike o s₁ s₂ := by
  have owner {target : Target} (ht : target.scope = scopeOf o) :
      Policy.ownerOf target.scope s₁.enforced = o := by rw [ht, ownerOf_scopeOf]
  cases r with
  | query caller target q order => exact (alike_query h (owner hr)).map _
  | insert caller target p => exact (alike_insert h (owner hr)).map _
  | bulkInsert caller target ps => exact (alike_bulkInsert h (owner hr)).map _
  | update caller target q changes => exact (alike_update h (owner hr)).map _
  | delete caller target q => exact (alike_delete h (owner hr)).map _
  | migrateAll caller => exact hr.elim
  | preferred caller sub => cases hr; exact (alike_preferred h).map _
  | setPreferred caller sub id => cases hr; exact (alike_setPreferred h).map _
  | clearPreferred caller sub => exact (alike_clearPreferred h).map _
  | apnSet caller sub => cases hr; exact (alike_apnSet h).map _
  | simApnList caller sub => cases hr; exact (alike_simApnList h).map _
  | restoreToDefault caller sub => cases hr; exact (alike_restoreToDefault h).map _
  | enforced caller => exact hr.elim
  | setEnforced caller value => exact hr.elim

/-- **Neither partition learns from the other**: a request through the scope of one owner gives the
same result or failure in two states that agree on the owner's rows, posts the same notices, and
leaves states that agree on them again. -/
theorem Request.separation (r : Request) (setup : Setup) (o : Owner) (s₁ s₂ : State Table)
    (hr : r.staysIn o) (h : State.AgreeOn o s₁ s₂) (hv₁ : s₁.store.Valid) (hv₂ : s₂.store.Valid) :
    ((r.action setup).perform s₁).1 = ((r.action setup).perform s₂).1 ∧
    State.AgreeOn o (r.after setup s₁) (r.after setup s₂) ∧
    ∃ notices, (r.after setup s₁).board = s₁.board.postAll notices ∧
      (r.after setup s₂).board = s₂.board.postAll notices := by
  have halike : (r.action setup).Alike o s₁ s₂ := Request.alike hr ⟨h, hv₁, hv₂⟩
  obtain ⟨result, s₁', s₂', notices, h₁, h₂, ht, hb₁, hb₂⟩ := halike
  rw [Request.after, Request.after, h₁, h₂]
  exact ⟨rfl, ht.toAgreeOn, notices, hb₁, hb₂⟩

theorem Request.separation_policy_row :
    let s₁ : State Table := .initial {} (.ofProfiles [{ apn := "web" }, { apn := "web", owner := .dpc }])
    let s₂ : State Table := .initial {} (.ofProfiles [{ apn := "web" }, { apn := "vpn", owner := .dpc }])
    let r : Request := .insert .system (.table .general none) { apn := "mms" }
    s₁.store.rows ≠ s₂.store.rows ∧ State.AgreeOn .others s₁ s₂ ∧ r.staysIn .others ∧
      ((r.action {}).perform s₁).1 = ((r.action {}).perform s₂).1 := by
  intro s₁ s₂ r
  have h : State.AgreeOn .others s₁ s₂ := ⟨by decide, rfl, rfl, rfl⟩
  exact ⟨by decide, h, rfl,
    (Request.separation r {} .others s₁ s₂ rfl h (.ofProfiles _) (.ofProfiles _)).1⟩

end Registry

end ApnRegistry
