import ApnRegistry.Proofs.Modernize
import ApnRegistry.Proofs.Preferred
import ApnRegistry.Registry.Request
import Mathlib.Control.Monad.Basic

/-!
# Calls that correspond

All calls are built in the same few ways, whatever the store: they read rows, send batches, look at the
flag and at the preferred rows, and post notices. A `Congruence` is a relation between the calls on one
kind of store and those on another that respects each of these ways. Then it relates every plain call to
the same call on the other store (`Congruence.rel_request`).

The other calls change the preferred rows or restore, and a `Correspondence` respects that as well. It
relates every call to the same call on the other store (`Correspondence.rel_request`), but for the one
that sets the flag. An attempt to restore looks at what came of its batch, so it counts as one of the ways
to build a call.

A property of the calls on one kind of store is a relation, too, which ignores the other side. One is that
they leave a part of the state (`leaving`).
-/

namespace ApnRegistry.Registry

/-- A relation between calls on two kinds of stores that respects the ways to build a plain call. -/
structure Congruence (σ τ : Type) [RowStore σ] [RowStore τ] where
  Rel : {α : Type} → Action σ α → Action τ α → Prop
  bind : ∀ {α β : Type} {a : Action σ α} {b : Action τ α} {f : α → Action σ β} {g : α → Action τ β},
    Rel a b → (∀ x, Rel (f x) (g x)) → Rel (a >>= f) (b >>= g)
  deciding : ∀ {α : Type} (result : Except Error α), Rel (decided result) (decided result)
  reading : ∀ q order, Rel (rows q order) (rows q order)
  fetching : ∀ id, Rel (fetch id) (fetch id)
  writing : ∀ batch, Rel (write batch) (write batch)
  publishing : ∀ n, Rel (publish n) (publish n)
  /-- To look at the flag and at the preferred rows. -/
  looking : ∀ {β : Type} {f : State σ → Action σ β} {g : State τ → Action τ β},
    (∀ s s', s.enforced = s'.enforced → s.preferences = s'.preferences → Rel (f s) (g s')) →
      Rel (get >>= f) (get >>= g)

/-- A relation that respects all ways to build a call. -/
structure Correspondence (σ τ : Type) [RowStore σ] [RowStore τ] extends Congruence σ τ where
  preferring : ∀ h : Preferences → Preferences,
    Rel (modify fun s => { s with preferences := h s.preferences })
      (modify fun s => { s with preferences := h s.preferences })
  restoring : ∀ setup extent, Rel (restoreOnce setup extent) (restoreOnce setup extent)

/-- The request neither sets the flag nor changes what is preferred. -/
def Request.IsPlain : Request → Prop
  | .setPreferred .. | .clearPreferred .. | .restoreToDefault .. | .setEnforced .. => False
  | _ => True

section Related

variable {σ τ α β : Type} [RowStore σ] [RowStore τ] {setup : Setup} {caller : Caller}
  {target : Target} {scope : Scope} {verb : Verb} {q : Predicate} {order : Order} {ps : List Profile}
  {sub : Subscription}

namespace Congruence

variable (C : Congruence σ τ)

/-! ## Small calls -/

theorem rel_pure (x : α) : C.Rel (pure x) (pure x) := C.deciding (.ok x)

theorem rel_throw (e : Error) : C.Rel (throw e : Action σ α) (throw e) := C.deciding (.error e)

theorem rel_map {a : Action σ α} {b : Action τ α} (h : C.Rel a b) (f : α → β) :
    C.Rel (f <$> a) (f <$> b) := by
  rw [map_eq_pure_bind, map_eq_pure_bind]
  exact C.bind h fun x => C.rel_pure (f x)

theorem rel_ite {c : Prop} [Decidable c] {a a' : Action σ α} {b b' : Action τ α} (h : C.Rel a b)
    (h' : C.Rel a' b') : C.Rel (if c then a else a') (if c then b else b') := by
  split
  · exact h
  · exact h'

/-- A call may end with a notice. -/
theorem rel_publish_if {n : Notice} {x : α} {c : Prop} [Decidable c] :
    C.Rel (if c then publish n >>= fun _ => pure x else pure x)
      (if c then publish n >>= fun _ => pure x else pure x) :=
  C.rel_ite (C.bind (C.publishing n) fun _ => C.rel_pure x) (C.rel_pure x)

theorem rel_authorize :
    C.Rel (authorize setup caller scope verb) (authorize setup caller scope verb) :=
  C.looking fun s s' he _ => by
    rw [he]
    exact C.deciding _

theorem rel_authorizeRows :
    C.Rel (authorizeRows setup caller target verb) (authorizeRows setup caller target verb) :=
  C.bind C.rel_authorize fun partition => C.rel_ite (C.rel_throw _) (C.rel_pure partition)

/-! ## Inserts -/

theorem rel_insertProfiles :
    C.Rel (insertProfiles setup caller target ps) (insertProfiles setup caller target ps) := by
  refine C.bind C.rel_authorizeRows fun partition => ?_
  cases target with
  | row scope id => exact C.rel_throw _
  | table scope subscription =>
    refine C.rel_ite (C.rel_pure []) (C.bind (C.reading _ _) fun stored => ?_)
    exact C.bind (C.deciding _) fun draft => C.bind (C.writing _) fun outcome => C.rel_pure _

/-! ## Modern form -/

theorem rel_writeBack {old modern : Profile} :
    C.Rel (writeBack old modern) (writeBack old modern) := by
  unfold writeBack
  cases old.id with
  | none => exact C.rel_pure false
  | some id =>
    refine C.bind (C.fetching id) fun found => C.rel_ite (C.rel_pure false) ?_
    refine C.bind (C.reading _ _) fun shard => C.bind (C.deciding _) fun batch => ?_
    exact C.bind (C.writing batch) fun _ => C.rel_pure true

theorem rel_modernizeRows (known : List String) : ∀ found : List Profile,
    C.Rel (modernizeRows known found) (modernizeRows known found)
  | [] => C.rel_pure 0
  | row :: rest => by
    rw [modernizeRows_cons, modernizeRows_cons]
    refine C.bind ?_ fun done => C.bind (rel_modernizeRows known rest) fun others => C.rel_pure _
    cases LegacyCodes.pending known row with
    | none => exact C.rel_pure false
    | some modern => exact C.rel_writeBack

theorem rel_query :
    C.Rel (query setup caller target q order) (query setup caller target q order) := by
  refine C.bind C.rel_authorizeRows fun partition => C.bind ?_ fun found => C.rel_pure _
  refine C.bind (C.reading _ _) fun found => C.rel_ite ?_ (C.rel_pure found)
  exact C.bind (C.rel_modernizeRows _ found) fun n => C.rel_ite (C.reading _ _) (C.rel_pure found)

theorem rel_migrateAll : C.Rel (migrateAll setup caller) (migrateAll setup caller) :=
  C.bind C.rel_authorize fun _ => C.bind (C.reading _ _) fun found =>
    C.bind (C.rel_modernizeRows _ found) fun _ => C.rel_publish_if

/-! ## Updates and deletions -/

theorem rel_lockMatching : ∀ attempts : Nat, C.Rel (lockMatching q attempts) (lockMatching q attempts)
  | 0 => C.rel_throw _
  | attempts + 1 => by
    refine C.bind (C.reading _ _) fun planned => C.rel_ite (C.rel_pure none) ?_
    exact C.bind (C.reading _ _) fun matched => C.rel_ite (C.rel_pure _) (rel_lockMatching attempts)

theorem rel_update {changes : Update} :
    C.Rel (update setup caller target q changes) (update setup caller target q changes) := by
  refine C.bind C.rel_authorizeRows fun partition => C.rel_ite (C.rel_pure 0) ?_
  refine C.bind (C.rel_lockMatching _) fun found => ?_
  rcases found with _ | ⟨shards, matched⟩
  · exact C.rel_pure 0
  · refine C.bind (C.reading _ _) fun locked => ?_
    dsimp only
    cases Revision.ofRows (stamped caller partition changes) locked (matched.filterMap (·.id)) with
    | error e => exact C.rel_ite (C.rel_pure 0) (C.rel_throw e)
    | ok revision => exact C.bind (C.writing _) fun _ => C.rel_publish_if

theorem rel_delete :
    C.Rel (delete setup caller target q) (delete setup caller target q) := by
  refine C.bind C.rel_authorizeRows fun partition => C.bind (C.rel_lockMatching _) fun found => ?_
  rcases found with _ | ⟨shards, matched⟩
  · exact C.rel_pure 0
  · exact C.bind (C.writing _) fun _ => C.rel_publish_if

/-! ## Plain requests -/

theorem rel_preferred : C.Rel (preferred setup caller sub) (preferred setup caller sub) := by
  refine C.bind C.rel_authorize fun _ => C.looking fun s s' _ hp => ?_
  rw [hp]
  cases s'.preferences.get? sub with
  | none => exact C.rel_pure none
  | some id => exact C.bind (C.fetching id) fun _ => C.rel_pure _

/-- **Every plain request is related to itself on the other store.** -/
theorem rel_request (setup : Setup) {r : Request} (hr : r.IsPlain) :
    C.Rel (r.action setup) (r.action setup) := by
  cases r with
  | query => exact C.rel_map C.rel_query _
  | insert => exact C.rel_map (C.bind C.rel_insertProfiles fun _ => C.rel_publish_if) _
  | bulkInsert => exact C.rel_map (C.bind C.rel_insertProfiles fun _ => C.rel_publish_if) _
  | update => exact C.rel_map C.rel_update _
  | delete => exact C.rel_map C.rel_delete _
  | migrateAll => exact C.rel_map C.rel_migrateAll _
  | preferred => exact C.rel_map C.rel_preferred _
  | apnSet =>
    exact C.rel_map (C.bind C.rel_query fun _ => C.bind C.rel_preferred fun _ => C.rel_pure _) _
  | simApnList =>
    rw [Request.action, Request.action, simApnList_eq, simApnList_eq]
    exact C.rel_map (C.bind C.rel_query fun _ => C.deciding _) _
  | enforced =>
    refine C.rel_map (C.bind C.rel_authorize fun _ => C.looking fun s s' he _ => ?_) _
    rw [he]
    exact C.rel_pure _
  | setPreferred => exact hr.elim
  | clearPreferred => exact hr.elim
  | restoreToDefault => exact hr.elim
  | setEnforced => exact hr.elim

end Congruence

namespace Correspondence

variable (C : Correspondence σ τ)

/-! ## Preferred rows -/

theorem rel_setPreferred {id : RowId} :
    C.Rel (setPreferred setup caller sub id) (setPreferred setup caller sub id) := by
  refine C.bind C.rel_authorize fun _ => C.bind (C.fetching id) fun found => C.rel_ite (C.rel_throw _) ?_
  exact C.bind (C.preferring (·.set sub id)) fun _ => C.publishing _

theorem rel_clearPreferred :
    C.Rel (clearPreferred setup caller sub) (clearPreferred setup caller sub) := by
  refine C.bind C.rel_authorize fun _ => C.looking fun s s' _ hp => ?_
  dsimp only
  rw [hp]
  exact C.bind (C.preferring (·.clear sub)) fun _ => C.rel_publish_if

/-! ## Restores -/

theorem rel_restoreRows {extent : Restore.Extent} : ∀ retries : Nat,
    C.Rel (restoreRows setup extent retries) (restoreRows setup extent retries)
  | 0 => C.bind (C.restoring _ _) fun outcome => C.deciding outcome
  | retries + 1 => by
    refine C.bind (C.restoring _ _) fun outcome => ?_
    cases outcome with
    | ok report => exact C.rel_pure report
    | error e => exact C.rel_ite (rel_restoreRows retries) (C.rel_throw e)

theorem rel_restoreToDefault :
    C.Rel (restoreToDefault setup caller sub) (restoreToDefault setup caller sub) := by
  refine C.bind C.rel_authorize fun _ => C.bind (C.rel_restoreRows _) fun report => ?_
  refine C.bind (C.preferring fun preferences =>
    if (extentOf setup.device sub).subscription.isSome then preferences.clear sub else []) fun _ => ?_
  exact C.bind (C.publishing _) fun _ => C.bind (C.publishing _) fun _ => C.rel_pure report

/-! ## Requests -/

/-- **Every request corresponds to itself on the other store**, but for the one that sets the flag. -/
theorem rel_request (setup : Setup) (r : Request) (hr : ∀ caller value, r ≠ .setEnforced caller value) :
    C.Rel (r.action setup) (r.action setup) := by
  cases r with
  | setPreferred => exact C.rel_map C.rel_setPreferred _
  | clearPreferred => exact C.rel_map C.rel_clearPreferred _
  | restoreToDefault => exact C.rel_map C.rel_restoreToDefault _
  | setEnforced caller value => exact absurd rfl (hr caller value)
  | _ => exact C.toCongruence.rel_request setup trivial

end Correspondence

end Related

/-! ## Calls that leave a part of the state -/

section Leaving

variable {σ α β γ : Type} {part : State σ → γ}

/-- The call leaves this part of the state, whatever comes of it. -/
def Action.Leaves (part : State σ → γ) (a : Action σ α) : Prop := ∀ s, part (a.perform s).2 = part s

theorem Action.Leaves.bind {a : Action σ α} {f : α → Action σ β} (h : a.Leaves part)
    (hf : ∀ x, (f x).Leaves part) : (a >>= f).Leaves part := by
  intro s
  have hs := h s
  rw [perform_bind]
  rcases ha : a.perform s with ⟨e | x, s'⟩ <;> rw [ha] at hs
  · exact hs
  · exact (hf x s').trans hs

/-- **Plain calls leave whatever depends on neither the rows nor the notices.** -/
def leaving [RowStore σ] (part : State σ → γ)
    (h : ∀ (s : State σ) store board, part { s with store := store, board := board } = part s) :
    Congruence σ σ where
  Rel a _ := a.Leaves part
  bind := Action.Leaves.bind
  deciding _ _ := rfl
  reading _ _ s := h s _ s.board
  fetching _ s := h s _ s.board
  writing _ s := h s _ s.board
  publishing _ s := h s s.store _
  looking hf s := hf s s rfl rfl s

end Leaving

end ApnRegistry.Registry
