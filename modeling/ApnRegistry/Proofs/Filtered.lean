import ApnRegistry.Proofs.Correspondence
import ApnRegistry.Proofs.Discreet
import ApnRegistry.Proofs.Integrity

/-!
# The filtered scope

The filtered scope stands for another one, which the enforcement flag names (`Scope.unfiltered`). It
differs from that one in whom it lets in. For a caller whom both let in, a call on rows is the same call
through either: after the authorization no call looks at the scope again, but only at the partition.

The flag is written by one call. All others leave it (`flagLeft`), on any store, so that it is what was set
last.

Results:
* `Request.perform_through`: a request through the filtered scope, and through the one it stands for.
* `Request.enforced_after`, `enforced_run`: the flag after a request, and after a run.
* `filtered_stands_for_unfiltered`: both.
-/

namespace ApnRegistry

/-- The scope that the filtered one stands for, the enforcement flag being as it is. -/
def Scope.unfiltered (enforced : Bool) : Scope := if enforced then .dpc else .general

/-- The same rows, through another scope. -/
def Target.through (scope : Scope) : Target → Target
  | .table _ subscription => .table scope subscription
  | .row _ id => .row scope id

@[simp] theorem Target.scope_through (scope : Scope) (target : Target) :
    (target.through scope).scope = scope := by
  cases target <;> rfl

namespace Registry

open Registry.Action

/-! ## The scope -/

/-- The same request on rows, through another scope. -/
def Request.through (scope : Scope) : Request → Request
  | .query caller target q order => .query caller (target.through scope) q order
  | .insert caller target p => .insert caller (target.through scope) p
  | .bulkInsert caller target ps => .bulkInsert caller (target.through scope) ps
  | .update caller target q changes => .update caller (target.through scope) q changes
  | .delete caller target q => .delete caller (target.through scope) q
  | r => r

section Through

variable {σ α β : Type} {setup : Setup} {caller : Caller} {target : Target} {verb : Verb}
  {enforced : Bool}

/-- Whoever both scopes let in gets the same partition through either. -/
theorem partitionFor_through (hs : target.scope = .filtered)
    (hp : setup.policy.isPrivileged caller = true) (hw : caller.canWrite = true) :
    partitionFor setup caller (target.through (.unfiltered enforced)) verb enforced =
      partitionFor setup caller target verb enforced := by
  have hfiltered : partitionFor setup caller target verb enforced =
      .ok (Partition.ofOwner (Policy.ownerOf .filtered enforced) verb) :=
    partitionFor_eq_ok.mpr ⟨by rw [hs]; nofun, fun _ => hp, fun _ _ => hw, by rw [hs]⟩
  rw [hfiltered]
  refine partitionFor_eq_ok.mpr ⟨?_, fun _ => hp, fun _ _ => hw, ?_⟩ <;> rw [Target.scope_through]
  · cases enforced <;> nofun
  · cases enforced <;> rfl

/-- So calls that go on alike after the authorization do the same. -/
theorem perform_authorizeRows_through {s : State σ} (f : Partition → Action σ α)
    (hs : target.scope = .filtered) (hp : setup.policy.isPrivileged caller = true)
    (hw : caller.canWrite = true) :
    (authorizeRows setup caller target verb >>= f).perform s =
      (authorizeRows setup caller (target.through (.unfiltered s.enforced)) verb >>= f).perform s := by
  rw [perform_bind, perform_bind, perform_authorizeRows_eq, perform_authorizeRows_eq,
    partitionFor_through hs hp hw]

variable [RowStore σ] {s : State σ} {p : Profile} {ps : List Profile} {q : Predicate} {order : Order}
  {changes : Update} (hs : target.scope = .filtered)
  (hp : setup.policy.isPrivileged caller = true) (hw : caller.canWrite = true)

include hs hp hw

theorem perform_query_through : (query setup caller target q order).perform s =
    (query setup caller (target.through (.unfiltered s.enforced)) q order).perform s := by
  cases target <;> exact perform_authorizeRows_through _ hs hp hw

theorem perform_insertProfiles_through : (insertProfiles setup caller target ps).perform s =
    (insertProfiles setup caller (target.through (.unfiltered s.enforced)) ps).perform s := by
  cases target <;> exact perform_authorizeRows_through _ hs hp hw

theorem perform_insert_through : (insert setup caller target p).perform s =
    (insert setup caller (target.through (.unfiltered s.enforced)) p).perform s := by
  rw [insert, insert, perform_bind, perform_bind, perform_insertProfiles_through hs hp hw]
  cases target <;> rfl

theorem perform_bulkInsert_through : (bulkInsert setup caller target ps).perform s =
    (bulkInsert setup caller (target.through (.unfiltered s.enforced)) ps).perform s := by
  rw [bulkInsert, bulkInsert, perform_bind, perform_bind, perform_insertProfiles_through hs hp hw]
  cases target <;> rfl

theorem perform_update_through : (update setup caller target q changes).perform s =
    (update setup caller (target.through (.unfiltered s.enforced)) q changes).perform s := by
  cases target <;> exact perform_authorizeRows_through _ hs hp hw

theorem perform_delete_through : (delete setup caller target q).perform s =
    (delete setup caller (target.through (.unfiltered s.enforced)) q).perform s := by
  cases target <;> exact perform_authorizeRows_through _ hs hp hw

omit hs hp hw in
/-- **A request through the filtered scope is one through the scope it stands for**, for callers whom
both let in. -/
theorem Request.perform_through {r : Request} (hr : r.target? = some target)
    (hs : target.scope = .filtered) (hp : setup.policy.isPrivileged r.caller = true)
    (hw : r.caller.canWrite = true) :
    (r.action setup).perform s =
      ((r.through (.unfiltered s.enforced)).action setup).perform s := by
  cases r with
  | query caller target q order =>
    cases hr
    dsimp only [Request.caller] at hp hw
    rw [through, action, action, perform_map, perform_map, perform_query_through hs hp hw]
  | insert caller target p =>
    cases hr
    dsimp only [Request.caller] at hp hw
    rw [through, action, action, perform_map, perform_map, perform_insert_through hs hp hw]
  | bulkInsert caller target ps =>
    cases hr
    dsimp only [Request.caller] at hp hw
    rw [through, action, action, perform_map, perform_map, perform_bulkInsert_through hs hp hw]
  | update caller target q changes =>
    cases hr
    dsimp only [Request.caller] at hp hw
    rw [through, action, action, perform_map, perform_map, perform_update_through hs hp hw]
  | delete caller target q =>
    cases hr
    dsimp only [Request.caller] at hp hw
    rw [through, action, action, perform_map, perform_map, perform_delete_through hs hp hw]
  | _ => cases hr

end Through

/-! ## The flag -/

section Flag

variable {σ : Type} [RowStore σ]

/-- All ways to build a call leave the flag. -/
def flagLeft (σ : Type) [RowStore σ] : Correspondence σ σ where
  toCongruence := leaving State.enforced fun _ _ _ => rfl
  preferring _ _ := rfl
  restoring _ _ := Leaves.bind (fun _ => rfl) fun _ => Leaves.bind (fun _ => rfl) fun _ =>
    Leaves.bind (fun _ => rfl) fun _ _ => rfl

/-- The value that a request gives to the enforcement flag. -/
def Request.flag? (setup : Setup) : Request → Option Bool
  | .setEnforced caller value => if setup.policy.isPrivileged caller then some value else none
  | _ => none

omit [RowStore σ] in
theorem enforced_setEnforced (setup : Setup) (caller : Caller) (value : Bool) (s : State σ) :
    ((setEnforced setup caller value).perform s).2.enforced =
      if setup.policy.isPrivileged caller then value else s.enforced := by
  rw [setEnforced, perform_bind, perform_authorize]
  cases hp : setup.policy.isPrivileged caller with
  | false =>
    cases ha : setup.policy.authorize caller .enforceManaged .update s.enforced with
    | error e => rfl
    | ok partition =>
      rw [(Policy.authorize_eq_ok.mp ha).1 rfl] at hp
      cases hp
  | true =>
    have ha : setup.policy.authorize caller .enforceManaged .update s.enforced =
        .ok (Partition.ofOwner .dpc .update) :=
      Policy.authorize_eq_ok.mpr ⟨fun _ => hp, nofun, rfl⟩
    rw [ha]
    show ((if s.enforced ≠ value then publish _ else pure () : Action σ Unit).perform
      { s with enforced := value }).2.enforced = value
    split <;> rfl

/-- **The flag after a request** is what it gives to it, if anything. -/
theorem Request.enforced_after (r : Request) (setup : Setup) (s : State σ) :
    (r.after setup s).enforced = (r.flag? setup).getD s.enforced := by
  by_cases hr : ∃ caller value, r = .setEnforced caller value
  · obtain ⟨caller, value, rfl⟩ := hr
    rw [after, action, perform_map, enforced_setEnforced, flag?]
    split <;> rfl
  · have hr (caller : Caller) (value : Bool) (heq : r = .setEnforced caller value) : False :=
      hr ⟨caller, value, heq⟩
    have hflag : r.flag? setup = none := by
      cases r with
      | setEnforced caller value => exact (hr caller value rfl).elim
      | _ => rfl
    rw [hflag]
    exact (flagLeft σ).rel_request setup r hr s

/-- **The flag after a run** is the last value that a request gave to it, or else the one before. -/
theorem enforced_run (setup : Setup) : ∀ (requests : List Request) (s : State σ),
    (run setup requests s).enforced =
      (requests.filterMap (Request.flag? setup)).getLast?.getD s.enforced
  | [], _ => rfl
  | r :: requests, s => by
    show (run setup requests (r.after setup s)).enforced = _
    rw [enforced_run setup requests, r.enforced_after setup s]
    cases hr : r.flag? setup with
    | none => rw [List.filterMap_cons_none hr, Option.getD_none]
    | some value =>
      rw [List.filterMap_cons_some hr, List.getLast?_cons, Option.getD_some, Option.getD_some]

/-- **The filtered scope stands for another one**: for a privileged caller with the permission to write,
each request on rows through it has the same result and leaves the same state, notices included, as
the same request through the general scope while policy rows are not enforced, and through the scope of
the policy controller while they are. The flag that decides is what was set last, or else what the
registry was set up with. -/
theorem filtered_stands_for_unfiltered (setup : Setup) :
    (∀ (s : State σ) (r : Request) (target : Target), r.target? = some target →
      target.scope = .filtered → setup.policy.isPrivileged r.caller = true →
      r.caller.canWrite = true → (r.action setup).perform s =
        ((r.through (if s.enforced then .dpc else .general)).action setup).perform s) ∧
    ∀ (store : σ) (requests : List Request), (run setup requests (.initial setup store)).enforced =
      (requests.filterMap (Request.flag? setup)).getLast?.getD setup.config.enforceManagedDefault :=
  ⟨fun _ _ _ hr hs hp hw => Request.perform_through hr hs hp hw,
    fun _ requests => enforced_run setup requests _⟩

/-- The flag is set, the system process updates through the filtered scope, and policy rows change. -/
theorem filtered_stands_for_unfiltered_web :
    let requests : List Request := [.setEnforced .phone true, .setEnforced writingApp false]
    let s : State Table := run {} requests (.initial {} (.ofProfiles [{ apn := "web", owner := .dpc }]))
    let r (scope : Scope) : Request :=
      .update .system (.table scope none) .always { apn := some "mms" }
    s.enforced = true ∧ ((r .filtered).action {}).perform s = ((r .dpc).action {}).perform s ∧
      (((r .filtered).action {}).perform s).1 = .ok (.count 1) := by
  intro requests s r
  have hall := filtered_stands_for_unfiltered (σ := Table) {}
  have hflag : s.enforced = true := hall.2 _ requests
  have hsame := hall.1 s (r .filtered) (.table .filtered none) rfl rfl (by decide) (by decide)
  rw [hflag] at hsame
  exact ⟨hflag, hsame, by decide +kernel⟩

end Flag

end Registry

end ApnRegistry
