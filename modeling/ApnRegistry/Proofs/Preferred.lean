import ApnRegistry.Proofs.InMemory
import ApnRegistry.Registry.Preferred

/-!
# Preferred rows of a table in memory

A pointer is followed when it is asked for (`perform_preferred`), and set if the row can be preferred
at that moment (`perform_setPreferred`). Neither changes the table.
-/

namespace ApnRegistry

/-- The row under the id, if it can be preferred. -/
def Table.preferable (t : Table) (id : RowId) : Option Profile :=
  (t.get? id).filter Selection.isPreferable

namespace Registry

variable {setup : Setup} {caller : Caller} {sub : Subscription} {id : RowId}

/-- The row that is preferred is the one that the pointer names, if it can be preferred. -/
theorem perform_preferred (setup : Setup) (caller : Caller) (sub : Subscription) (s : State Table) :
    (preferred setup caller sub).perform s =
      ((setup.policy.authorize caller .general .query s.enforced).map fun _ =>
        (s.preferences.get? sub).bind s.store.preferable, s) := by
  rw [preferred, Action.perform_bind, perform_authorize]
  cases setup.policy.authorize caller .general .query s.enforced with
  | error e => rfl
  | ok partition =>
    show (get >>= _ : Action Table _).perform s = _
    rw [Action.perform_bind, Action.perform_get]
    dsimp only
    cases hp : s.preferences.get? sub with
    | none => rfl
    | some id => rfl

theorem perform_setPreferred_of_none {partition : Partition} {s : State Table}
    (ha : setup.policy.authorize caller .general .update s.enforced = .ok partition)
    (hp : s.store.preferable id = none) :
    (setPreferred setup caller sub id).perform s = (.error (.notPreferable id), s) := by
  have hany : (s.store.get? id).any Selection.isPreferable = false := by
    cases hg : s.store.get? id with
    | none => rfl
    | some p =>
      rw [Table.preferable, hg, Option.filter] at hp
      split at hp
      · cases hp
      · rename_i hpref
        exact (Bool.not_eq_true _).mp hpref
  rw [setPreferred, Action.perform_bind, perform_authorize, ha]
  show (if !(s.store.get? id).any Selection.isPreferable then _ else _ : Action Table _).perform s = _
  rw [hany]
  rfl

/-- A row that can be preferred becomes preferred. -/
theorem perform_setPreferred_of_some {partition : Partition} {s : State Table} {p : Profile}
    (ha : setup.policy.authorize caller .general .update s.enforced = .ok partition)
    (hp : s.store.preferable id = some p) :
    (setPreferred setup caller sub id).perform s = (.ok (), { s with
      preferences := s.preferences.set sub id
      board := s.board.post (.apnTable (some sub)) }) := by
  obtain ⟨hg, hpref⟩ := Option.filter_eq_some_iff.mp hp
  have hany : (s.store.get? id).any Selection.isPreferable = true := by
    rw [hg]
    exact hpref
  rw [setPreferred, Action.perform_bind, perform_authorize, ha]
  show (if !(s.store.get? id).any Selection.isPreferable then _ else _ : Action Table _).perform s = _
  rw [hany]
  rfl

theorem perform_setPreferred_of_error {e : Error} {s : State Table}
    (ha : setup.policy.authorize caller .general .update s.enforced = .error e) :
    (setPreferred setup caller sub id).perform s = (.error e, s) := by
  rw [setPreferred, Action.perform_bind, perform_authorize, ha]

theorem perform_clearPreferred_of_ok {partition : Partition} {s : State Table}
    (ha : setup.policy.authorize caller .general .update s.enforced = .ok partition) :
    ∃ board, (clearPreferred setup caller sub).perform s =
      (.ok (s.preferences.get? sub).isSome, { s with
        preferences := s.preferences.clear sub
        board := board }) := by
  rw [clearPreferred, Action.perform_bind, perform_authorize, ha]
  show ∃ board, (if (s.preferences.get? sub).isSome then _ else _ : Action Table _).perform _ = _
  split
  · exact ⟨_, rfl⟩
  · exact ⟨_, rfl⟩

theorem perform_clearPreferred_of_error {e : Error} {s : State Table}
    (ha : setup.policy.authorize caller .general .update s.enforced = .error e) :
    (clearPreferred setup caller sub).perform s = (.error e, s) := by
  rw [clearPreferred, Action.perform_bind, perform_authorize, ha]

/-- The candidates for the SIM of the subscription among the rows, if the engine runs their patterns. -/
def candidates (setup : Setup) (sub : Subscription) (found : List Profile) :
    Except Error (List Profile) :=
  match Selection.refusal setup.engine found (setup.device.sim sub) with
  | some e => .error e
  | none => .ok (Selection.forSim found (setup.device.sim sub))

/-- The candidates are found among the rows of the subscription. -/
theorem simApnList_eq {σ : Type} [RowStore σ] (setup : Setup) (caller : Caller) (sub : Subscription) :
    (simApnList setup caller sub : Action σ _) =
      subscriptionRows setup caller sub >>= fun found => decided (candidates setup sub found) := by
  unfold simApnList
  refine congrArg _ (funext fun found => ?_)
  unfold candidates
  cases Selection.refusal setup.engine found (setup.device.sim sub) with
  | some e => rfl
  | none => rfl

end Registry

end ApnRegistry
