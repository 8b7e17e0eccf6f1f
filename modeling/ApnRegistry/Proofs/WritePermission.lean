import ApnRegistry.Proofs.Integrity
import ApnRegistry.Proofs.Intent

/-!
# Ordinary rows and the permission to write

The general scope asks for the permission to write, the filtered one for a privileged caller only. While
policy rows are not enforced both lead to the ordinary rows. So a caller without the permission can change
them, but in one way alone (`Request.WritesFiltered`).

Results:
* `filtered_of_granted_others`: how a caller without the permission gets at ordinary rows to write them.
* `Request.ordinaryRows_after_eq`: what such a caller leaves as it is.
* `not_forall_ordinaryRows_after_eq`: the permission alone does not protect them.
-/

namespace ApnRegistry

namespace Registry

open Table LegacyCodes

variable {setup : Setup} {s : State Table} {caller : Caller} {target : Target} {verb : Verb}
  {enforced : Bool} {shard : Shard}

/-- **The way to the ordinary rows without the permission to write them**: a privileged caller takes the
filtered scope while policy rows are not enforced. -/
theorem filtered_of_granted_others (hw : caller.canWrite = false) (hverb : verb.isWrite = true)
    (hg : Granted setup caller target verb enforced shard) (ho : shard.owner = .others) :
    target.scope = .filtered ∧ enforced = false ∧ setup.policy.isPrivileged caller = true := by
  obtain ⟨partition, ha, howner⟩ := hg
  have howner : Policy.ownerOf target.scope enforced = .others := by
    rw [← owner_of_partitionFor ha, ← howner, ho]
  obtain ⟨-, hpriv, hwrite, -⟩ := partitionFor_eq_ok.mp ha
  cases hs : target.scope with
  | general =>
    rw [hwrite hs hverb] at hw
    cases hw
  | filtered =>
    rw [hs] at howner hpriv
    refine ⟨rfl, ?_, hpriv rfl⟩
    cases enforced with
    | false => rfl
    | true => cases howner
  | dpc | enforceManaged =>
    rw [hs] at howner
    cases howner

/-- The request changes rows through the filtered scope, by a privileged caller, while policy rows are
not enforced. -/
def Request.WritesFiltered (setup : Setup) (s : State Table) : Request → Prop
  | .insert caller target _ | .bulkInsert caller target _ | .update caller target _ _
  | .delete caller target _ =>
    target.scope = .filtered ∧ s.enforced = false ∧ setup.policy.isPrivileged caller = true
  | _ => False

/-- Requests that read leave a table in modern form as it is; all others without the permission reach no
ordinary rows, but in that one way. -/
theorem Request.unchanged_or_not_reaches (r : Request) (hv : s.store.Valid)
    (hm : AllModern setup.device.known s.store.rows.profiles) (hw : r.caller.canWrite = false)
    (hf : ¬r.WritesFiltered setup s) :
    r.after setup s = s ∨ ∀ shard, r.reaches setup s.enforced shard → shard.owner ≠ .others := by
  cases r with
  | query =>
    left
    rw [after, action, Action.perform_map, state_query_of_modern hv hm]
  | apnSet =>
    left
    rw [after, action, Action.perform_map, state_apnSet_of_modern hv hm]
  | simApnList =>
    left
    rw [after, action, Action.perform_map, state_simApnList_of_modern hv hm]
  | insert | bulkInsert | update | delete =>
    exact Or.inr fun shard hr ho => hf (filtered_of_granted_others hw rfl hr ho)
  | migrateAll =>
    exact Or.inr fun shard hr => absurd (hw.symm.trans hr) Bool.false_ne_true
  | restoreToDefault =>
    exact Or.inr fun shard hr => absurd (hw.symm.trans hr.2) Bool.false_ne_true
  | preferred | setPreferred | clearPreferred | enforced | setEnforced =>
    exact Or.inr fun shard hr => hr.elim

/-- **The integrity of ordinary rows**: if no row waits for its modern form, then a request of a caller
without the permission to write leaves all ordinary rows as they are, with their ids and all of their
content, unless it changes rows through the filtered scope, by a privileged caller, while policy rows
are not enforced. -/
theorem Request.ordinaryRows_after_eq (r : Request) (setup : Setup) (s : State Table)
    (hv : s.store.Valid) (hm : AllModern setup.device.known s.store.rows.profiles)
    (hw : r.caller.canWrite = false) (hf : ¬r.WritesFiltered setup s) :
    ((r.after setup s).store.only .others).rows = (s.store.only .others).rows := by
  rcases r.unchanged_or_not_reaches hv hm hw hf with heq | hr
  · rw [heq]
  · exact (r.moves setup hv).rows_only_eq hv hr

/-- The system process, without the permission to write. -/
def restrictedSystem : Caller := { uid := 1000 }

/-- Its update through the filtered scope has no effect on ordinary rows while policy rows are
enforced. -/
theorem ordinaryRows_after_eq_restrictedSystem :
    let s : State Table := .initial { config := { enforceManagedDefault := true } }
      (.ofProfiles [{ apn := "web" }, { apn := "web", owner := .dpc }])
    let r : Request := .update restrictedSystem (.table .filtered none) .always { apn := some "mms" }
    AllModern (Setup.device {}).known s.store.rows.profiles ∧ r.caller.canWrite = false ∧
      ¬r.WritesFiltered {} s ∧ ((r.action {}).perform s).1 = .ok (.count 1) ∧
      ((r.after {} s).store.only .others).rows = (s.store.only .others).rows := by
  intro s r
  have hm : AllModern (Setup.device {}).known s.store.rows.profiles := by decide
  have hw : r.caller.canWrite = false := by decide
  have hf : ¬r.WritesFiltered {} s := fun h => Bool.noConfusion h.2.1
  exact ⟨hm, hw, hf, by decide +kernel, r.ordinaryRows_after_eq {} s (.ofProfiles _) hm hw hf⟩

/-- **The permission alone does not protect ordinary rows**: the system process inserts one without it,
through the filtered scope. -/
theorem not_forall_ordinaryRows_after_eq : ¬∀ (r : Request) (setup : Setup) (s : State Table),
    s.store.Valid → AllModern setup.device.known s.store.rows.profiles → r.caller.canWrite = false →
    ((r.after setup s).store.only .others).rows = (s.store.only .others).rows := by
  intro hall
  have hsame := hall (.insert restrictedSystem (.table .filtered none) { apn := "web" }) {}
    (.initial {} (.ofProfiles [])) (.ofProfiles _) (by decide) (by decide)
  exact absurd hsame (by decide +kernel)

end Registry

end ApnRegistry
