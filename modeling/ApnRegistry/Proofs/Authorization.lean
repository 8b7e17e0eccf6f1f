import ApnRegistry.Registry.State

/-!
# Authorization of calls on rows

`partitionFor` is the outcome of the authorization that every call on rows starts with. It depends on
the caller, the target's scope, the verb and the enforcement flag, and on nothing else of the state.

Results:
* `perform_authorizeRows_eq`: the authorization gives `partitionFor` and changes nothing.
* `partitionFor_eq_ok`: who gets which partition.
-/

namespace ApnRegistry

namespace Policy

variable {policy : Policy} {caller : Caller} {scope : Scope} {verb : Verb} {enforced : Bool}
  {partition : Partition}

/-- Who gets a partition, and which. -/
theorem authorize_eq_ok : policy.authorize caller scope verb enforced = .ok partition ↔
    (scope.isPrivileged = true → policy.isPrivileged caller = true) ∧
    (scope = .general → verb.isWrite = true → caller.canWrite = true) ∧
    partition = Partition.ofOwner (ownerOf scope enforced) verb := by
  unfold authorize
  split
  · rename_i h
    rw [Bool.and_eq_true, Bool.not_eq_true'] at h
    refine ⟨nofun, fun hall => ?_⟩
    have := hall.1 h.1
    rw [h.2] at this
    cases this
  · rename_i hpriv
    split
    · rename_i h
      rw [Bool.and_eq_true, Bool.and_eq_true, decide_eq_true_iff, Bool.not_eq_true'] at h
      refine ⟨nofun, fun hall => ?_⟩
      have := hall.2.1 h.1.1 h.1.2
      rw [h.2] at this
      cases this
    · rename_i hwrite
      constructor
      · intro h
        cases h
        exact ⟨fun h => by simpa [h] using hpriv, fun h hw => by simpa [h, hw] using hwrite, rfl⟩
      · rintro ⟨-, -, rfl⟩
        rfl

end Policy

namespace Registry

variable {σ : Type} {setup : Setup} {caller : Caller} {target : Target} {verb : Verb}
  {enforced : Bool} {partition : Partition}

/-- The partition that a caller gets for a call on rows. -/
def partitionFor (setup : Setup) (caller : Caller) (target : Target) (verb : Verb)
    (enforced : Bool) : Except Error Partition :=
  match setup.policy.authorize caller target.scope verb enforced with
  | .error e => .error e
  | .ok partition =>
    if target.scope = .enforceManaged then .error .enforcementHasNoRows else .ok partition

theorem perform_authorizeRows_eq (setup : Setup) (caller : Caller) (target : Target) (verb : Verb)
    (s : State σ) : (authorizeRows setup caller target verb).perform s =
      (partitionFor setup caller target verb s.enforced, s) := by
  rw [perform_authorizeRows, partitionFor]
  cases setup.policy.authorize caller target.scope verb s.enforced with
  | error e => rfl
  | ok partition =>
    show ((if target.scope = .enforceManaged then _ else _ : Except Error Partition), s) = _
    split
    · rfl
    · rfl

/-- **Who may call on rows**: privileged callers through a privileged scope, and through the general
one whoever has the permission that the verb needs. The partition is that of the scope's owner. -/
theorem partitionFor_eq_ok : partitionFor setup caller target verb enforced = .ok partition ↔
    target.scope ≠ .enforceManaged ∧
    (target.scope.isPrivileged = true → setup.policy.isPrivileged caller = true) ∧
    (target.scope = .general → verb.isWrite = true → caller.canWrite = true) ∧
    partition = Partition.ofOwner (Policy.ownerOf target.scope enforced) verb := by
  rw [← Policy.authorize_eq_ok, partitionFor]
  cases h : setup.policy.authorize caller target.scope verb enforced with
  | error e => exact ⟨nofun, fun hall => nomatch hall.2⟩
  | ok granted =>
    show (if target.scope = .enforceManaged then _ else _) = _ ↔ _
    split
    · rename_i hscope
      exact ⟨nofun, fun hall => absurd hscope hall.1⟩
    · rename_i hscope
      exact ⟨fun h => ⟨hscope, h⟩, fun hall => hall.2⟩

theorem owner_of_partitionFor
    (h : partitionFor setup caller target verb enforced = .ok partition) :
    partition.owner = Policy.ownerOf target.scope enforced := by
  obtain ⟨-, -, -, rfl⟩ := partitionFor_eq_ok.mp h
  rfl

/-- The general scope leads to the ordinary rows. -/
theorem owner_of_general (hs : target.scope = .general)
    (ha : partitionFor setup caller target verb enforced = .ok partition) : partition.owner = .others := by
  rw [owner_of_partitionFor ha, hs]
  rfl

/-- Inserts are forced into the partition. -/
theorem forcedOwner_of_partitionFor
    (h : partitionFor setup caller target .insert enforced = .ok partition) :
    partition.forcedOwner = some partition.owner := by
  obtain ⟨-, -, -, rfl⟩ := partitionFor_eq_ok.mp h
  rfl

/-- Only privileged callers get the partition of the policy controller. -/
theorem isPrivileged_of_dpc (h : partitionFor setup caller target verb enforced = .ok partition)
    (ho : partition.owner = .dpc) : setup.policy.isPrivileged caller = true := by
  obtain ⟨-, hpriv, -, rfl⟩ := partitionFor_eq_ok.mp h
  refine hpriv ?_
  cases hs : target.scope with
  | general =>
    rw [hs] at ho
    cases ho
  | dpc => rfl
  | filtered => rfl
  | enforceManaged => rfl

/-- Everyone may query through the general scope, and gets the ordinary rows. -/
theorem partitionFor_query_general (setup : Setup) (caller : Caller) (sub : Option Subscription)
    (enforced : Bool) : ∃ partition, partition.owner = .others ∧
      partitionFor setup caller (.table .general sub) .query enforced = .ok partition :=
  ⟨_, rfl, partitionFor_eq_ok.mpr ⟨nofun, nofun, fun _ => nofun, rfl⟩⟩

end Registry

end ApnRegistry
