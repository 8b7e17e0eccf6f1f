import ApnRegistry.Proofs.Correspondence
import ApnRegistry.Proofs.Journal
import ApnRegistry.Proofs.Restore

/-!
# Batches that are accepted

A table turns a batch down if a change names a row that is not there, or a row that is to be stored has
an id where it should have none, or none where it should have one. No call goes on after that, a restore
aside, whose batches are always accepted. So a call either fails because a batch was turned down, or all
its batches are accepted, and then they are all that changes the table (`Action.Delivers`).

Results:
* `Table.replay_append`, `Table.isRejection_of_apply`: batches one after the other, and how one fails.
* `Registry.delivered`: the ways to build a call, on a table and on its journal.
* `Registry.Request.delivers`: every request but the one that sets the flag.
-/

namespace ApnRegistry

/-- The failures with which a table turns a batch down. -/
def Error.isRejection : Error → Bool
  | .insertWithId _ | .replaceWithoutId | .unknownRow _ => true
  | _ => false

namespace Table

variable {t t' : Table} {batch : Batch} {done : Batch.Outcome} {e : Error}

/-- Carries out batches one after the other, until one is turned down. -/
def replay : Table → List Batch → Except Error Table
  | t, [] => .ok t
  | t, batch :: batches =>
    match t.apply batch with
    | .ok (t, _) => t.replay batches
    | .error e => .error e

theorem replay_cons_of_ok {batches : List Batch} (h : t.apply batch = .ok (t', done)) :
    t.replay (batch :: batches) = t'.replay batches := by
  rw [replay, h]

theorem replay_append : ∀ {batches more : List Batch} {t : Table}, t.replay batches = .ok t' →
    t.replay (batches ++ more) = t'.replay more
  | [], _, _, h => by
    cases h
    rfl
  | batch :: batches, more, t, h => by
    cases ha : t.apply batch with
    | error e =>
      rw [replay, ha] at h
      cases h
    | ok r =>
      obtain ⟨t₁, done⟩ := r
      rw [replay_cons_of_ok ha] at h
      rw [List.cons_append, replay_cons_of_ok ha, replay_append h]

theorem Valid.replay : ∀ {batches : List Batch} {t : Table}, t.Valid → t.replay batches = .ok t' →
    t'.Valid
  | [], _, hv, h => by
    cases h
    exact hv
  | batch :: batches, t, hv, h => by
    cases ha : t.apply batch with
    | error e =>
      rw [Table.replay, ha] at h
      cases h
    | ok r =>
      obtain ⟨t₁, done⟩ := r
      rw [replay_cons_of_ok ha] at h
      exact (hv.apply ha).replay h

theorem isRejection_of_step {change : Change} (h : t.step done change = .error e) :
    e.isRejection = true := by
  cases change with
  | insert p =>
    cases hid : p.id with
    | none =>
      rw [step_insert hid] at h
      cases h
    | some id =>
      simp only [step, insert, hid, bind, Except.bind] at h
      cases h
      rfl
  | replace p =>
    cases hid : p.id with
    | none =>
      simp only [step, replace, hid, bind, Except.bind] at h
      cases h
      rfl
    | some id =>
      by_cases hg : (t.get? id).isSome
      · rw [step_replace hid hg] at h
        cases h
      · simp only [step, replace, hid, bind, Except.bind, if_neg hg] at h
        cases h
        rfl
  | delete id =>
    by_cases hg : (t.get? id).isSome
    · rw [step_delete hg] at h
      cases h
    · simp only [step, delete, bind, Except.bind, if_neg hg] at h
      cases h
      rfl

theorem isRejection_of_steps : ∀ {batch : Batch} {t : Table} {done : Batch.Outcome},
    t.steps done batch = .error e → e.isRejection = true
  | [], _, _, h => nomatch h
  | change :: batch, t, done, h => by
    cases hc : t.step done change with
    | error e' =>
      simp only [steps, hc, bind, Except.bind] at h
      cases h
      exact isRejection_of_step hc
    | ok r =>
      rw [steps_cons_of_ok batch hc] at h
      exact isRejection_of_steps h

/-- **How a batch fails.** -/
theorem isRejection_of_apply (h : t.apply batch = .error e) : e.isRejection = true :=
  isRejection_of_steps h

end Table

namespace Registry

open Table

variable {α β : Type} {s : State Table}

namespace Action

/-- Carried out on a journal of the table, the first call does what the second one does on the table. The
table accepts the batches that are sent, and they make the table that is left, unless the call fails as
one is turned down. -/
def Delivers (a : Action (Journal Table) α) (b : Action Table α) (s : State Table) : Prop :=
  ∀ before, ∃ sent,
    a.perform (s.journaled before) = ((b.perform s).1, (b.perform s).2.journaled (before ++ sent)) ∧
    (s.store.replay sent = .ok (b.perform s).2.store ∨
      ∃ e, (b.perform s).1 = .error e ∧ e.isRejection = true)

theorem Delivers.bind {a : Action (Journal Table) α} {b : Action Table α}
    {f : α → Action (Journal Table) β} {g : α → Action Table β} (hv : s.store.Valid)
    (h : Delivers a b s)
    (hf : ∀ x s', b.perform s = (.ok x, s') → s'.store.Valid → Delivers (f x) (g x) s') :
    Delivers (a >>= f) (b >>= g) s := by
  intro before
  obtain ⟨sent, ha, hsent⟩ := h before
  rw [perform_bind, perform_bind, ha]
  rcases hb : b.perform s with ⟨e | x, s'⟩ <;> rw [hb] at hsent
  · -- The first call fails, so that nothing more is sent.
    refine ⟨sent, rfl, hsent.imp_right ?_⟩
    rintro ⟨e', he, hrejection⟩
    cases he
    exact ⟨e, rfl, hrejection⟩
  · -- It succeeds, so that its batches were accepted.
    have hreplay : s.store.replay sent = .ok s'.store :=
      hsent.resolve_right fun ⟨_, he, _⟩ => nomatch he
    obtain ⟨more, hx, hmore⟩ := hf x s' hb (hv.replay hreplay) (before ++ sent)
    refine ⟨sent ++ more, ?_, ?_⟩
    · rw [← List.append_assoc]
      exact hx
    · rw [replay_append hreplay]
      exact hmore

/-- A call that sends nothing, and leaves the table. -/
theorem Delivers.silent {a : Action (Journal Table) α} {b : Action Table α}
    (h : ∀ before, a.perform (s.journaled before) =
      ((b.perform s).1, (b.perform s).2.journaled before))
    (hstore : (b.perform s).2.store = s.store) : Delivers a b s := by
  intro before
  refine ⟨[], ?_, Or.inl (congrArg Except.ok hstore.symm)⟩
  rw [List.append_nil]
  exact h before

theorem delivers_write (batch : Batch) : Delivers (write batch) (write batch) s := by
  intro before
  refine ⟨[batch], rfl, ?_⟩
  cases h : s.store.apply batch with
  | error e =>
    refine Or.inr ⟨e, ?_, isRejection_of_apply h⟩
    rw [write, perform_onStore]
    simp only [RowStore.apply, h]
  | ok r =>
    obtain ⟨t, outcome⟩ := r
    left
    rw [perform_write h, replay_cons_of_ok h]
    rfl

/-- The outcome of a call that succeeds. -/
theorem Delivers.outcomeOf {a : Action (Journal Table) α} {b : Action Table α} {x : α}
    (h : Delivers a b s) (hx : (b.perform s).1 = .ok x) : Delivers (outcomeOf a) (outcomeOf b) s := by
  intro before
  obtain ⟨sent, ha, hsent⟩ := h before
  refine ⟨sent, ?_, Or.inl (hsent.resolve_right fun ⟨_, he, _⟩ => nomatch hx.symm.trans he)⟩
  rw [perform_outcomeOf, perform_outcomeOf, ha]

/-- An attempt to restore sends a batch that is accepted. -/
theorem delivers_restoreOnce {setup : Setup} {extent : Restore.Extent} (hv : s.store.Valid) :
    Delivers (restoreOnce setup extent) (restoreOnce setup extent) s := by
  refine Delivers.bind hv (.silent (fun _ => rfl) rfl) fun found s' h _ => ?_
  cases h
  refine Delivers.bind hv (.silent (fun _ => rfl) rfl) fun plan s' h _ => ?_
  obtain ⟨hplan, rfl⟩ := Prod.mk.inj h
  rw [Table.scan_always] at hplan
  obtain ⟨-, seeding, hseeded, rfl⟩ := Restore.prepare_eq_ok.mp hplan
  obtain ⟨done, happly⟩ := apply_planOf hv hseeded
  have hwrite := delivers_write (s := s) (Restore.planOf extent s.store.rows.profiles seeding).batch
  refine Delivers.bind hv (hwrite.outcomeOf (by rw [perform_write happly])) fun _ _ _ _ => ?_
  exact .silent (fun _ => rfl) rfl

end Action

open Registry.Action

/-- **All ways to build a call deliver its batches.** -/
def delivered : Correspondence (Journal Table) Table where
  Rel a b := ∀ s, s.store.Valid → Delivers a b s
  bind h hf s hv := (h s hv).bind hv fun x s' _ hv' => hf x s' hv'
  deciding _ _ _ := .silent (fun _ => rfl) rfl
  reading _ _ _ _ := .silent (fun _ => rfl) rfl
  fetching _ _ _ := .silent (fun _ => rfl) rfl
  writing batch _ _ := delivers_write batch
  publishing _ _ _ := .silent (fun _ => rfl) rfl
  looking h s hv before := h (s.journaled before) s rfl rfl s hv before
  preferring _ _ _ := .silent (fun _ => rfl) rfl
  restoring _ _ _ hv := delivers_restoreOnce hv

/-- **Every request delivers its batches**, but for the one that sets the flag. -/
theorem Request.delivers {r : Request} (hr : ∀ caller value, r ≠ .setEnforced caller value)
    (setup : Setup) (hv : s.store.Valid) : Delivers (r.action setup) (r.action setup) s :=
  delivered.rel_request setup r hr s hv

end Registry

end ApnRegistry
