import ApnRegistry.Proofs.AllOrNothing
import ApnRegistry.Proofs.Authorization
import ApnRegistry.Proofs.Discreet
import ApnRegistry.Proofs.InMemory
import ApnRegistry.Proofs.Journal
import ApnRegistry.Registry.Restoring
import Mathlib.Control.Monad.Basic

/-!
# How often a restore is tried

A store may fail to carry a batch out, and say that trying again may help. A restore then reads the rows
once more, plans again and sends the new batch, as often as the settings allow. If nothing but such
failures happens to the store (`Steady`), its rows stay the same meanwhile, and all the attempts are the
same. So it is decided by the first answer that is not a transient failure, or else by the last attempt
that is allowed.

Results:
* `Steady.exists_restoreRows`: the attempt that decides, by induction on those that are left.
* `Registry.restoreToDefault_retries`: what comes of a restore if the first attempts fail.
-/

namespace ApnRegistry

/-- The store fails and says that trying again may help. -/
def IsTransient {α : Type} (result : Except Error α) : Prop :=
  ∃ e, result = .error e ∧ e.isRetryable = true

namespace RowStore

variable {σ : Type} [RowStore σ]

/-- One attempt: all rows are read, and the batch is sent. -/
def attempt (batch : Batch) (st : σ) : Except Error Batch.Outcome × σ :=
  RowStore.apply batch (RowStore.query .always .idAscending st).2

/-- The store after so many attempts. -/
def attempted (batch : Batch) : Nat → σ → σ
  | 0, st => st
  | n + 1, st => attempted batch n (attempt batch st).2

/-- What the store answers to the batch after so many attempts. -/
def answer (batch : Batch) (n : Nat) (st : σ) : Except Error Batch.Outcome :=
  (attempt batch (attempted batch n st)).1

theorem attempted_succ (batch : Batch) : ∀ (n : Nat) (st : σ),
    attempted batch (n + 1) st = (attempt batch (attempted batch n st)).2
  | 0, _ => rfl
  | n + 1, st => attempted_succ batch n (attempt batch st).2

/-- A journal keeps the batch of each attempt. -/
theorem attempted_journal (batch : Batch) : ∀ (n : Nat) (st : σ) (sent : List Batch),
    attempted batch n (⟨st, sent⟩ : Journal σ) =
      ⟨attempted batch n st, sent ++ List.replicate n batch⟩
  | 0, st, sent => by
    rw [List.replicate_zero, List.append_nil]
    rfl
  | n + 1, st, sent => by
    show attempted batch n (⟨(attempt batch st).2, sent ++ [batch]⟩ : Journal σ) = _
    rw [attempted_journal batch n, List.append_assoc, List.replicate_succ]
    rfl

theorem answer_journal (batch : Batch) (n : Nat) (st : σ) (sent : List Batch) :
    answer batch n (⟨st, sent⟩ : Journal σ) = answer batch n st := by
  rw [answer, attempted_journal]
  rfl

end RowStore

open RowStore

/-- While `P` is true of the store it reads like a table, and it carries a batch out as that table does, or
fails and leaves the rows as they are. -/
structure Steady {σ : Type} [RowStore σ] (content : σ → Table) (P : σ → Prop) : Prop where
  read : ∀ (q : Predicate) (order : Order) (st : σ), P st →
    (RowStore.query q order st).1 = .ok ((content st).scan q order)
  left : ∀ (q : Predicate) (order : Order) (st : σ), P st →
    content (RowStore.query q order st).2 = content st
  /-- A batch that succeeds is carried out. -/
  carried : ∀ (batch : Batch) (st : σ) (outcome : Batch.Outcome), P st →
    (RowStore.apply batch st).1 = .ok outcome →
    (content st).apply batch = .ok (content (RowStore.apply batch st).2, outcome)
  /-- A batch that fails is not. -/
  failed : ∀ (batch : Batch) (st : σ) (e : Error), P st → (RowStore.apply batch st).1 = .error e →
    content (RowStore.apply batch st).2 = content st
  kept_query : ∀ (q : Predicate) (order : Order) (st : σ), P st → P (RowStore.query q order st).2
  kept_apply : ∀ (batch : Batch) (st : σ), P st → P (RowStore.apply batch st).2

namespace Steady

variable {σ : Type} [RowStore σ] {content : σ → Table} {P : σ → Prop} {batch : Batch} {st : σ} {n : Nat}
  {outcome : Batch.Outcome} {e : Error}

theorem journal (h : Steady content P) :
    Steady (fun j : Journal σ => content j.store) (fun j => P j.store) where
  read := fun q order j => h.read q order j.store
  left := fun q order j => h.left q order j.store
  carried := fun batch j => h.carried batch j.store
  failed := fun batch j => h.failed batch j.store
  kept_query := fun q order j => h.kept_query q order j.store
  kept_apply := fun batch j => h.kept_apply batch j.store

variable (h : Steady content P)
include h

theorem kept_attempted : ∀ {n : Nat} {st : σ}, P st → P (attempted batch n st)
  | 0, _, hP => hP
  | n + 1, st, hP => by
    show P (attempted batch n (attempt batch st).2)
    exact kept_attempted (h.kept_apply _ _ (h.kept_query _ _ _ hP))

theorem content_of_attempt (hP : P st) (he : (attempt batch st).1 = .error e) :
    content (attempt batch st).2 = content st :=
  (h.failed batch _ e (h.kept_query _ _ _ hP) he).trans (h.left _ _ _ hP)

/-- Attempts that fail leave the rows. -/
theorem content_attempted : ∀ {n : Nat} {st : σ}, P st →
    (∀ i < n, ∃ e, answer batch i st = .error e) → content (attempted batch n st) = content st
  | 0, _, _, _ => rfl
  | n + 1, st, hP, hfail => by
    obtain ⟨e, he⟩ := hfail 0 (Nat.succ_pos n)
    rw [← h.content_of_attempt hP he]
    exact content_attempted (h.kept_apply _ _ (h.kept_query _ _ _ hP))
      fun i hi => hfail (i + 1) (Nat.succ_lt_succ hi)

/-- All attempts read the same rows until one succeeds. -/
theorem read_attempted (hP : P st) (hfail : ∀ i < n, ∃ e, answer batch i st = .error e) :
    (RowStore.query .always .idAscending (attempted batch n st)).1 =
      .ok (content st).rows.profiles := by
  rw [h.read _ _ _ (h.kept_attempted hP), h.content_attempted hP hfail, Table.scan_idAscending,
    List.filter_eq_self.mpr fun p _ => Predicate.holds_always p]

/-- The attempt that succeeds carries the batch out once. -/
theorem apply_of_attempted (hP : P st) (hfail : ∀ i < n, ∃ e, answer batch i st = .error e)
    (hok : answer batch n st = .ok outcome) :
    (content st).apply batch = .ok (content (attempted batch (n + 1) st), outcome) := by
  have hPn : P (attempted batch n st) := h.kept_attempted hP
  have happly := h.carried batch _ outcome (h.kept_query .always .idAscending _ hPn) hok
  rw [h.left .always .idAscending _ hPn, h.content_attempted hP hfail] at happly
  rw [attempted_succ]
  exact happly

end Steady

/-! ## A store whose writes fail on schedule -/

namespace Rehearsal

variable {r : Rehearsal} {method : Method} {α : Type} {act : Table → Except Error α × Table}
  {failures rest : List (Method × Error)} {e : Error}

/-- Nothing happens to the table but that it may fail to carry out a batch. -/
structure OnlyWritesFail (r : Rehearsal) : Prop where
  undisturbed : r.intrusions = []
  writes : ∀ due ∈ r.failures, due.1 = .apply

theorem takeFailure_eq_none (h : ∀ due ∈ failures, due.1 ≠ method) :
    takeFailure method failures = none := by
  induction failures with
  | nil => rfl
  | cons due failures ih =>
    rw [takeFailure, if_neg (h due List.mem_cons_self), ih fun d hd => h d (List.mem_cons_of_mem _ hd)]
    rfl

theorem mem_of_takeFailure (h : takeFailure method failures = some (e, rest)) :
    ∀ due ∈ rest, due ∈ failures := by
  induction failures generalizing rest with
  | nil => cases h
  | cons due failures ih =>
    rw [takeFailure] at h
    split at h
    · cases h
      exact fun d hd => List.mem_cons_of_mem _ hd
    · obtain ⟨found, hfound, heq⟩ := Option.map_eq_some_iff.mp h
      cases heq
      intro d hd
      rcases List.mem_cons.mp hd with rfl | hd
      · exact List.mem_cons_self
      · exact List.mem_cons_of_mem _ (ih hfound d hd)

theorem OnlyWritesFail.call (h : r.OnlyWritesFail) : (r.call method act).2.OnlyWritesFail := by
  unfold Rehearsal.call
  dsimp only
  cases hf : takeFailure method r.failures with
  | some due => exact ⟨h.undisturbed, fun d hd => h.writes d (mem_of_takeFailure hf d hd)⟩
  | none =>
    dsimp only
    rcases act r.table with ⟨e | a, t⟩
    · exact ⟨h.undisturbed, h.writes⟩
    · exact ⟨h.undisturbed, h.writes⟩

/-- A reading does not fail. -/
theorem OnlyWritesFail.call_query (h : r.OnlyWritesFail) :
    (r.call .query act).1 = (act r.table).1 ∧ (r.call .query act).2.table = (act r.table).2 := by
  have hf : takeFailure .query r.failures = none := by
    refine takeFailure_eq_none fun due hd hquery => ?_
    rw [h.writes due hd] at hquery
    cases hquery
  unfold Rehearsal.call
  simp only [hf, h.undisturbed]
  rcases act r.table with ⟨e | a, t⟩
  · exact ⟨rfl, rfl⟩
  · exact ⟨rfl, rfl⟩

/-- A batch fails on schedule and leaves the table, or is carried out on it. -/
theorem OnlyWritesFail.apply_cases (h : r.OnlyWritesFail) (batch : Batch) :
    ((∃ e, (RowStore.apply batch r).1 = .error e) ∧ (RowStore.apply batch r).2.table = r.table) ∨
      (RowStore.apply batch r).1 = (RowStore.apply batch r.table).1 ∧
        (RowStore.apply batch r).2.table = (RowStore.apply batch r.table).2 := by
  rcases call_cases r .apply (RowStore.apply batch) with ⟨he, hown⟩ | ⟨hact, hown⟩
  · exact Or.inl ⟨he, table_of_own?_eq h.undisturbed hown⟩
  · exact Or.inr ⟨hact,
      table_of_own?_eq (r := { r with table := (RowStore.apply batch r.table).2 }) h.undisturbed hown⟩

/-- **A table whose writes fail on schedule is steady.** -/
theorem steady : Steady Rehearsal.table OnlyWritesFail where
  read := fun _ _ _ h => h.call_query.1
  left := fun _ _ _ h => h.call_query.2
  carried := fun batch r outcome h hok => by
    rcases h.apply_cases batch with ⟨⟨e, he⟩, -⟩ | ⟨hact, htable⟩
    · exact nomatch hok.symm.trans he
    · rw [htable]
      have hok := hact.symm.trans hok
      rw [Table.rowStore_apply] at hok ⊢
      cases ha : r.table.apply batch with
      | error e =>
        rw [ha] at hok
        cases hok
      | ok done =>
        rw [ha] at hok
        cases hok
        rfl
  failed := fun batch r e h he => by
    rcases h.apply_cases batch with ⟨-, htable⟩ | ⟨hact, htable⟩
    · exact htable
    · rw [htable]
      exact Table.snd_apply_of_error (hact.symm.trans he)
  kept_query := fun _ _ _ h => h.call
  kept_apply := fun _ _ h => h.call

end Rehearsal

namespace Registry

open Restore Registry.Action

variable {σ : Type} [RowStore σ] {content : σ → Table} {P : σ → Prop} {setup : Setup} {caller : Caller}
  {sub : Subscription} {extent : Extent} {s : State σ} {plan : Plan}

/-! ## The attempt that decides -/

/-- The rows in memory allow the plan. -/
def Plans (setup : Setup) (extent : Extent) (t : Table) (plan : Plan) : Prop :=
  prepare setup.engine t.rows.profiles setup.defaults extent = .ok plan

variable (hc : Steady content P)
include hc

/-- An attempt to restore ends as the store answers to its batch. -/
theorem perform_restoreOnce_of_steady (hP : P s.store)
    (hplan : Plans setup extent (content s.store) plan) :
    (restoreOnce setup extent).perform s = (.ok ((answer plan.batch 0 s.store).map fun _ => plan.report),
      { s with store := attempted plan.batch 1 s.store }) := by
  have hread : (RowStore.query .always .idAscending (attempted plan.batch 0 s.store)).1 =
      .ok (content s.store).rows.profiles := hc.read_attempted hP nofun
  have hrows : (rows .always .idAscending : Action σ _).perform s = (.ok (content s.store).rows.profiles,
      { s with store := (RowStore.query .always .idAscending s.store).2 }) := Prod.ext hread rfl
  rw [restoreOnce, perform_bind, hrows]
  dsimp only
  rw [perform_bind, perform_decided, hplan]
  rfl

/-- **The attempt that decides** is the first one that the store does not answer by a transient failure, or
the last one that is allowed. -/
theorem perform_restoreRows_of_steady : ∀ (retries k : Nat) {s : State σ}, P s.store →
    Plans setup extent (content s.store) plan →
    (∀ i < k, IsTransient (answer plan.batch i s.store)) →
    (k < retries → ¬IsTransient (answer plan.batch k s.store)) →
    (restoreRows setup extent retries).perform s =
      ((answer plan.batch (min k retries) s.store).map fun _ => plan.report,
        { s with store := attempted plan.batch (min k retries + 1) s.store })
  | 0, k, s, hP, hplan, _, _ => by
    rw [restoreRows, perform_bind, perform_restoreOnce_of_steady hc hP hplan, Nat.min_zero]
    rfl
  | retries + 1, 0, s, hP, hplan, _, hstop => by
    rw [restoreRows, perform_bind, perform_restoreOnce_of_steady hc hP hplan, Nat.zero_min]
    cases ha : answer plan.batch 0 s.store with
    | ok outcome => rfl
    | error e =>
      have hfinal : e.isRetryable ≠ true := fun h => hstop (Nat.succ_pos retries) ⟨e, ha, h⟩
      show (if e.isRetryable = true then _ else _ : Action σ _).perform _ = _
      rw [if_neg hfinal]
      rfl
  | retries + 1, k + 1, s, hP, hplan, hfail, hstop => by
    obtain ⟨e, he, hretry⟩ := hfail 0 (Nat.succ_pos k)
    -- The rows are as they were, and so the next attempt has the same plan.
    have hcontent : content (attempt plan.batch s.store).2 = content s.store :=
      hc.content_of_attempt hP he
    have hnext := perform_restoreRows_of_steady retries k
      (s := { s with store := (attempt plan.batch s.store).2 }) (hc.kept_attempted (n := 1) hP)
      (hcontent ▸ hplan) (fun i hi => hfail (i + 1) (Nat.succ_lt_succ hi))
      (fun h => hstop (Nat.succ_lt_succ h))
    rw [restoreRows, perform_bind, perform_restoreOnce_of_steady hc hP hplan, he,
      Nat.succ_min_succ]
    show (if e.isRetryable = true then _ else _ : Action σ _).perform _ = _
    rw [if_pos hretry]
    exact hnext

omit hc

/-! ## The call -/

/-- The state after a restore that came to the result: if it succeeded, the pointers that it covers are
forgotten, and it is announced. -/
def concluded (setup : Setup) (sub : Subscription) (result : Except Error Report) (s : State σ) :
    State σ :=
  match result with
  | .error _ => s
  | .ok _ => { s with
      preferences :=
        if (extentOf setup.device sub).subscription.isSome then s.preferences.clear sub else []
      board := (s.board.post (.restore (some sub))).post (.apnTable (some sub)) }

theorem perform_restoreToDefault_of_canWrite (hw : caller.canWrite = true) :
    (restoreToDefault setup caller sub).perform s =
      let (result, s') := (restoreRows setup (extentOf setup.device sub)
        (setup.config.restoreMaxAttempts.toNat - 1)).perform s
      (result, concluded setup sub result s') := by
  have ha : setup.policy.authorize caller .general .update s.enforced = .ok (.ofOwner .others .update) :=
    Policy.authorize_eq_ok.mpr ⟨nofun, fun _ _ => hw, rfl⟩
  rw [restoreToDefault, perform_bind, perform_authorize, ha]
  dsimp only
  rw [perform_bind]
  rcases (restoreRows setup (extentOf setup.device sub)
    (setup.config.restoreMaxAttempts.toNat - 1)).perform s with ⟨e | report, s'⟩
  · rfl
  · rfl

/-- On the store and on a journal of it, the restore comes to the result and leads to the state. To do so it
sends the batch so many times, and nothing else. -/
structure Restores (setup : Setup) (caller : Caller) (sub : Subscription) (s : State σ) (batch : Batch)
    (times : Nat) (result : Except Error Report) (s' : State σ) : Prop where
  perform : (restoreToDefault setup caller sub).perform s = (result, s')
  sent : ∀ before, (restoreToDefault setup caller sub).perform (s.journaled before) =
    (result, s'.journaled (before ++ List.replicate times batch))

/-- **A restore ends as the deciding attempt does.** -/
theorem restores_of_steady (hc : Steady content P) (hP : P s.store) (hw : caller.canWrite = true)
    (hplan : Plans setup (extentOf setup.device sub) (content s.store) plan) {k n : Nat}
    (hfail : ∀ i < k, IsTransient (answer plan.batch i s.store))
    (hstop : k < setup.config.restoreMaxAttempts.toNat - 1 → ¬IsTransient (answer plan.batch k s.store))
    (hn : n = min k (setup.config.restoreMaxAttempts.toNat - 1)) :
    let result := (answer plan.batch n s.store).map fun _ => plan.report
    Restores setup caller sub s plan.batch (n + 1) result
      (concluded setup sub result { s with store := attempted plan.batch (n + 1) s.store }) := by
  intro result
  subst hn
  constructor
  · rw [perform_restoreToDefault_of_canWrite hw,
      perform_restoreRows_of_steady hc _ k hP hplan hfail hstop]
  · intro before
    -- A journal of the store is steady as well, and its store gives the same answers.
    rw [perform_restoreToDefault_of_canWrite hw,
      perform_restoreRows_of_steady hc.journal _ k (s := s.journaled before) hP hplan
        (fun i hi => (answer_journal plan.batch i s.store before).symm ▸ hfail i hi)
        (fun h => (answer_journal plan.batch k s.store before).symm ▸ hstop h)]
    simp only [State.journaled, answer_journal, attempted_journal]
    show (result, concluded setup sub result _) = _
    cases result with
    | error e => rfl
    | ok report => rfl

/-- A caller that may not write sends nothing. -/
theorem exists_restores_of_not_canWrite {batch : Batch} (hw : caller.canWrite = false) :
    ∃ e, Restores setup caller sub s batch 0 (.error e) s := by
  cases ha : setup.policy.authorize caller .general .update s.enforced with
  | ok partition =>
    have hgranted := (Policy.authorize_eq_ok.mp ha).2.1 rfl rfl
    rw [hw] at hgranted
    cases hgranted
  | error e =>
    have hrefused {τ : Type} [RowStore τ] (s' : State τ) (hs' : s'.enforced = s.enforced) :
        (restoreToDefault setup caller sub).perform s' = (.error e, s') := by
      rw [restoreToDefault, perform_bind, perform_authorize, hs', ha]
    refine ⟨e, hrefused s rfl, fun before => ?_⟩
    rw [List.replicate_zero, List.append_nil]
    exact hrefused (s.journaled before) rfl

/-- What the rows, the pointers and the board are after a restore that succeeded. -/
structure Completed (content : σ → Table) (setup : Setup) (sub : Subscription) (batch : Batch)
    (s s' : State σ) : Prop where
  table : ∃ outcome, (content s.store).apply batch = .ok (content s'.store, outcome)
  preferences : s'.preferences =
    if (extentOf setup.device sub).subscription.isSome then s.preferences.clear sub else []
  enforced : s'.enforced = s.enforced
  board : s'.board =
    { s.board with posted := s.board.posted ++ [.restore (some sub), .apnTable (some sub)] }

theorem completed_of_steady (hc : Steady content P) (hP : P s.store) {n : Nat} {outcome : Batch.Outcome}
    {report : Report} (hfail : ∀ i < n, ∃ e, answer plan.batch i s.store = .error e)
    (hok : answer plan.batch n s.store = .ok outcome) :
    Completed content setup sub plan.batch s (concluded setup sub (.ok report)
      { s with store := attempted plan.batch (n + 1) s.store }) where
  table := ⟨outcome, hc.apply_of_attempted hP hfail hok⟩
  preferences := rfl
  enforced := rfl
  board := by simp [concluded, NoticeBoard.post]

/-- A restore that ends by a failure leaves what it found. -/
theorem same_of_steady (setup : Setup) (sub : Subscription) (hc : Steady content P) (hP : P s.store)
    {n : Nat} {e : Error}
    (hfail : ∀ i < n, ∃ e, answer plan.batch i s.store = .error e)
    (he : answer plan.batch n s.store = .error e) :
    let s' := concluded setup sub (.error e) { s with store := attempted plan.batch (n + 1) s.store }
    State.Same content s s' ∧ s'.board = s.board := by
  refine ⟨⟨hc.content_attempted hP fun i hi => ?_, rfl, rfl⟩, rfl⟩
  rcases Nat.lt_succ_iff_lt_or_eq.mp hi with hi | rfl
  · exact hfail i hi
  · exact ⟨e, he⟩

/-- **How a restore is tried again**: let the store read like a table, and let each batch that it is sent
either be carried out as on that table or fail and leave it as it is. The restore must be such that the
rows allow it. If the first `k` attempts fail transiently:
* If the next one is carried out, the restore succeeds iff `k` is less than the number of attempts that are
  allowed. The batch is sent once for each attempt, and the table is then the one that a single batch leads to.
  The pointers that the restore covers are forgotten, and just a notice of the restore and then one of the
  table are posted.
* If the next one fails for good, the restore fails by that.
* If `k` is no less than the number that is allowed, the restore fails by what the last attempt failed by.

A restore that fails leaves the table, the pointers and the board. All attempts read the same rows, and so
each has the same plan. A caller that may not write sends nothing. -/
theorem restoreToDefault_retries (hc : Steady content P) (setup : Setup) (caller : Caller)
    (sub : Subscription) (s : State σ) (plan : Plan) (k : Nat) (hP : P s.store)
    (hlimit : 1 ≤ setup.config.restoreMaxAttempts.toNat)
    (hplan : Plans setup (extentOf setup.device sub) (content s.store) plan)
    (hfail : ∀ i < k, IsTransient (answer plan.batch i s.store)) :
    let limit := setup.config.restoreMaxAttempts.toNat
    (caller.canWrite = true →
      (∀ outcome, answer plan.batch k s.store = .ok outcome → ∃ result s',
        Restores setup caller sub s plan.batch (min (k + 1) limit) result s' ∧
        ((∃ report, result = .ok report) ↔ k < limit) ∧
        (k < limit → result = .ok plan.report ∧ Completed content setup sub plan.batch s s')) ∧
      (∀ e, k < limit → answer plan.batch k s.store = .error e → e.isRetryable = false →
        ∃ s', Restores setup caller sub s plan.batch (k + 1) (.error e) s' ∧
          State.Same content s s' ∧ s'.board = s.board) ∧
      (limit ≤ k → ∃ e s', answer plan.batch (limit - 1) s.store = .error e ∧
        Restores setup caller sub s plan.batch limit (.error e) s' ∧
        State.Same content s s' ∧ s'.board = s.board)) ∧
    (∀ i ≤ k, (RowStore.query .always .idAscending (attempted plan.batch i s.store)).1 =
      .ok (content s.store).rows.profiles) ∧
    (caller.canWrite = false → ∃ e, Restores setup caller sub s plan.batch 0 (.error e) s) := by
  intro limit
  have hany {n : Nat} (hn : n ≤ k) (i : Nat) (hi : i < n) : ∃ e, answer plan.batch i s.store = .error e := by
    obtain ⟨e, he, -⟩ := hfail i (Nat.lt_of_lt_of_le hi hn)
    exact ⟨e, he⟩
  have hends (hw : caller.canWrite = true) {n : Nat} (hn : n = min k (limit - 1))
      (hstop : k < limit - 1 → ¬IsTransient (answer plan.batch k s.store)) :=
    restores_of_steady hc hP hw hplan hfail hstop hn
  have hlast (hw : caller.canWrite = true) (hk : limit ≤ k) :
      ∃ e s', answer plan.batch (limit - 1) s.store = .error e ∧
        Restores setup caller sub s plan.batch limit (.error e) s' ∧
        State.Same content s s' ∧ s'.board = s.board := by
    obtain ⟨e, he⟩ := hany (Nat.le_refl k) (limit - 1) (by omega)
    have hends := hends hw (n := limit - 1) (by omega) fun h => absurd hk (by omega)
    rw [he, Nat.sub_add_cancel hlimit] at hends
    have hsame := same_of_steady setup sub hc hP (hany (by omega)) he
    rw [Nat.sub_add_cancel hlimit] at hsame
    exact ⟨e, _, he, hends, hsame⟩
  refine ⟨fun hw => ⟨fun outcome hok => ?_, fun e hk he hfinal => ?_, hlast hw⟩,
    fun i hi => hc.read_attempted hP (hany hi), exists_restores_of_not_canWrite⟩
  · by_cases hk : k < limit
    · have hends := hends hw (n := k) (by omega) fun _ ⟨e, he, _⟩ => nomatch hok.symm.trans he
      rw [hok] at hends
      rw [Nat.min_eq_left hk]
      exact ⟨_, _, hends, iff_of_true ⟨_, rfl⟩ hk,
        fun _ => ⟨rfl, completed_of_steady hc hP (hany (Nat.le_refl k)) hok⟩⟩
    · obtain ⟨e, s', -, hs', -⟩ := hlast hw (Nat.not_lt.mp hk)
      rw [Nat.min_eq_right (by omega)]
      exact ⟨_, s', hs', iff_of_false (fun ⟨_, h⟩ => nomatch h) hk, fun h => absurd h hk⟩
  · have hstop : ¬IsTransient (answer plan.batch k s.store) := by
      rintro ⟨e', he', hretry⟩
      obtain rfl : e = e' := Except.error.inj (he.symm.trans he')
      rw [hfinal] at hretry
      cases hretry
    have hends := hends hw (n := k) (by omega) fun _ => hstop
    rw [he] at hends
    exact ⟨_, hends, same_of_steady setup sub hc hP (hany (Nat.le_refl k)) he⟩

/-- A device with one SIM, and one profile on its factory list. -/
def factoryWeb : Setup :=
  { device := { sims := [(0, { operator := some "26201" })], phoneCount := 1 }
    factory := [{ apn := "web", numeric := "26201" }] }

/-- A store with a row of the operator that is not on the list, and that fails to write so many times. -/
def busyStart (times : Nat) : State Rehearsal :=
  .initial factoryWeb (({ table := .ofProfiles [{ apn := "old", numeric := "26201" }] } : Rehearsal).failing
    .apply (.reported .transient "busy") times)

theorem onlyWritesFail_busyStart (times : Nat) : (busyStart times).store.OnlyWritesFail where
  undisturbed := rfl
  writes := fun _ h => by rw [List.eq_of_mem_replicate h]

/-- Three attempts are allowed. The third one succeeds if two fail before it, and is the last if it fails. -/
theorem restoreToDefault_retries_busy :
    let busy : Error := .reported .transient "busy"
    let plan : Restore.Plan := {
      batch := [.delete ⟨1⟩, .insert { apn := "web", numeric := "26201" }]
      report := { deleted := 1, preserved := 0, seeded := 1 } }
    factoryWeb.config.restoreMaxAttempts = 3 ∧
      (∃ s', Restores factoryWeb .system ⟨0⟩ (busyStart 2) plan.batch 3 (.ok plan.report) s' ∧
        Completed Rehearsal.table factoryWeb ⟨0⟩ plan.batch (busyStart 2) s') ∧
      ∃ s', Restores factoryWeb .system ⟨0⟩ (busyStart 3) plan.batch 3 (.error busy) s' ∧
        s'.store.table = (busyStart 3).store.table ∧ s'.board = (busyStart 3).board := by
  intro busy plan
  have hplan (times : Nat) : Plans factoryWeb (extentOf factoryWeb.device ⟨0⟩)
      (busyStart times).store.table plan := by
    have h : Plans factoryWeb (extentOf factoryWeb.device ⟨0⟩)
        (.ofProfiles [{ apn := "old", numeric := "26201" }]) plan := by
      unfold Plans
      decide +kernel
    exact h
  have hok : answer plan.batch 2 (busyStart 2).store = .ok { inserted := [⟨2⟩], deleted := 1 } := by
    decide +kernel
  have htwo : ∀ i < 2, answer plan.batch i (busyStart 2).store = .error busy := by
    decide +kernel
  have hthree : ∀ i < 3, answer plan.batch i (busyStart 3).store = .error busy := by
    decide +kernel
  have hsome := (restoreToDefault_retries Rehearsal.steady factoryWeb .system ⟨0⟩ (busyStart 2) plan 2
    (onlyWritesFail_busyStart 2) (by decide) (hplan 2) fun i hi => ⟨busy, htwo i hi, rfl⟩).1 rfl
  have hnone := (restoreToDefault_retries Rehearsal.steady factoryWeb .system ⟨0⟩ (busyStart 3) plan 3
    (onlyWritesFail_busyStart 3) (by decide) (hplan 3) fun i hi => ⟨busy, hthree i hi, rfl⟩).1 rfl
  obtain ⟨result, s₁, hs₁, -, hdone⟩ := hsome.1 _ hok
  obtain ⟨rfl, hcompleted⟩ := hdone (by decide)
  obtain ⟨e, s₂, he, hs₂, hsame, hboard⟩ := hnone.2.2 (by decide)
  obtain rfl : busy = e := Except.error.inj ((hthree 2 (by decide)).symm.trans he)
  exact ⟨rfl, ⟨s₁, hs₁, hcompleted⟩, s₂, hs₂, hsame.store, hboard⟩

end Registry

end ApnRegistry
