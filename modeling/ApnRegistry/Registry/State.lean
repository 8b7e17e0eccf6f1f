import ApnRegistry.Access
import ApnRegistry.Config
import ApnRegistry.Notice
import ApnRegistry.Preferences
import ApnRegistry.RowStore
import ApnRegistry.Selection
import ApnRegistry.Target

/-!
# The registry and its calls

A registry is set up once (`Setup`) and remembers a `State` between calls: the store of its rows,
the enforcement flag, the preferred rows and the board of notices. A call is an `Action`: from a
state it leads to a result or a failure, and in either case to a state.

Every call authorizes its caller first. `authorizeRows` is the authorization of the calls that
touch rows.

`Action.perform` carries a call out; the laws `perform_bind`, `perform_onStore` and the others beside
them say what it does with each way to build a call.
-/

namespace ApnRegistry

namespace Registry

/-- What a registry is set up with. -/
structure Setup where
  config : Config := {}
  device : Device := {}
  /-- The factory list, as it was loaded. -/
  factory : List Profile := []
  /-- What runs the IMSI patterns; one that never objects, unless another is given. -/
  engine : Mvno.Engine := fun _ => none
  deriving Inhabited

namespace Setup

/-- The callers that may use the privileged scopes. -/
def policy (s : Setup) : Policy := ⟨s.config.privilegedUids⟩

/-- The factory list, as a restore uses it. -/
def defaults (s : Setup) : List Profile := s.factory.map Profile.asFactory

end Setup

/-- What a registry remembers between calls. -/
structure State (σ : Type) where
  store : σ
  enforced : Bool
  preferences : Preferences := []
  board : NoticeBoard

/-- The state of a new registry over a store. -/
def State.initial {σ : Type} (setup : Setup) (store : σ) : State σ where
  store := store
  enforced := setup.config.enforceManagedDefault
  board := .ofCapacity setup.config.notificationCapacity

/-- A call on a registry: its result or failure, and the state afterwards. -/
abbrev Action (σ : Type) := ExceptT Error (StateM (State σ))

variable {σ α β : Type}

/-- Carries the call out in the given state. -/
def Action.perform (a : Action σ α) (s : State σ) : Except Error α × State σ :=
  StateT.run (ExceptT.run a) s

/-- A call on the store of the rows. -/
def onStore (f : σ → Except Error α × σ) : Action σ α :=
  ExceptT.mk fun s => let (result, store) := f s.store; (result, { s with store })

/-- A decision that needs no state. -/
def decided (result : Except Error α) : Action σ α := ExceptT.mk (pure result)

/-- The outcome of a call, as a result that can be looked at. -/
def outcomeOf (a : Action σ α) : Action σ (Except Error α) :=
  ExceptT.mk fun s => let (result, s) := a.perform s; (.ok result, s)

/-- Posts a notice. -/
def publish (n : Notice) : Action σ Unit := modify fun s => { s with board := s.board.post n }

namespace Action

@[simp] theorem perform_pure (a : α) (s : State σ) :
    (pure a : Action σ α).perform s = (.ok a, s) := rfl

@[simp] theorem perform_throw (e : Error) (s : State σ) :
    (throw e : Action σ α).perform s = (.error e, s) := rfl

/-- A call goes on where the one before it ended, unless that failed. -/
theorem perform_bind (a : Action σ α) (f : α → Action σ β) (s : State σ) :
    (a >>= f).perform s = match a.perform s with
      | (.ok x, s) => (f x).perform s
      | (.error e, s) => (.error e, s) := by
  rw [perform, ExceptT.run_bind, StateT.run_bind]
  rcases h : a.perform s with ⟨_ | _, _⟩ <;> rw [perform] at h <;> rw [h] <;> rfl

theorem perform_map (f : α → β) (a : Action σ α) (s : State σ) :
    (f <$> a).perform s = ((a.perform s).1.map f, (a.perform s).2) := by
  rw [perform, ExceptT.run_map, StateT.run_map]
  rfl

@[simp] theorem perform_get (s : State σ) :
    (get : Action σ (State σ)).perform s = (.ok s, s) := rfl

@[simp] theorem perform_modify (f : State σ → State σ) (s : State σ) :
    (modify f : Action σ PUnit).perform s = (.ok ⟨⟩, f s) := rfl

/-- A call on the store changes nothing but the store. -/
@[simp] theorem perform_onStore (f : σ → Except Error α × σ) (s : State σ) :
    (onStore f).perform s = ((f s.store).1, { s with store := (f s.store).2 }) := rfl

@[simp] theorem perform_decided (result : Except Error α) (s : State σ) :
    (decided result).perform s = (result, s) := rfl

@[simp] theorem perform_outcomeOf (a : Action σ α) (s : State σ) :
    (outcomeOf a).perform s = (.ok (a.perform s).1, (a.perform s).2) := rfl

@[simp] theorem perform_publish (n : Notice) (s : State σ) :
    (publish n).perform s = (.ok (), { s with board := s.board.post n }) := rfl

end Action

section Store

variable [RowStore σ]

/-- One stored row. -/
def fetch (id : RowId) : Action σ (Option Profile) := onStore (RowStore.get id)

/-- The stored rows that meet a condition, tombstones included. -/
def rows (q : Predicate) (order : Order) : Action σ (List Profile) := onStore (RowStore.query q order)

/-- Carries out a batch on the store. -/
def write (batch : Batch) : Action σ Batch.Outcome := onStore (RowStore.apply batch)

end Store

/-- The partition that the caller gets, the enforcement flag being as it is. -/
def authorize (setup : Setup) (caller : Caller) (scope : Scope) (verb : Verb) :
    Action σ Partition := do
  decided (setup.policy.authorize caller scope verb (← get).enforced)

/-- The partition for a call on rows; the enforcement scope has none. -/
def authorizeRows (setup : Setup) (caller : Caller) (target : Target) (verb : Verb) :
    Action σ Partition := do
  let partition ← authorize setup caller target.scope verb
  if target.scope = .enforceManaged then throw .enforcementHasNoRows
  return partition

/-- An authorization looks at the enforcement flag and changes nothing. -/
theorem perform_authorize (setup : Setup) (caller : Caller) (scope : Scope) (verb : Verb)
    (s : State σ) : (authorize setup caller scope verb).perform s =
      (setup.policy.authorize caller scope verb s.enforced, s) := rfl

theorem perform_authorizeRows (setup : Setup) (caller : Caller) (target : Target) (verb : Verb)
    (s : State σ) : (authorizeRows setup caller target verb).perform s =
      (do
        let partition ← setup.policy.authorize caller target.scope verb s.enforced
        if target.scope = .enforceManaged then throw .enforcementHasNoRows
        return partition, s) := by
  simp only [authorizeRows, Action.perform_bind, perform_authorize]
  cases setup.policy.authorize caller target.scope verb s.enforced with
  | error e => rfl
  | ok partition => by_cases h : target.scope = .enforceManaged <;> simp only [h] <;> rfl

/-- The rows that a target addresses on the device. -/
def targetPredicate (setup : Setup) (target : Target) : Predicate :=
  match target.subscription? with
  | some s => target.rowPredicate.and (Selection.ofSubscription s (setup.device.operator s))
  | none => target.rowPredicate

/-- The rows of a partition that a target addresses and a condition selects. -/
def selected (setup : Setup) (partition : Partition) (target : Target) (q : Predicate) :
    Predicate :=
  (partition.predicate.and (targetPredicate setup target)).and q

/-- The rows of the given shards. -/
def inShards (shards : List Shard) : Predicate :=
  let one (s : Shard) : Predicate :=
    (Predicate.equals .ownedBy (.integer s.owner.code)).and
      (.equals .subscriptionId (.integer s.subscription.val.toInt64))
  match shards with
  | [] => Predicate.always.not
  | s :: rest => rest.foldl (fun q s => q.or (one s)) (one s)

end Registry

end ApnRegistry
