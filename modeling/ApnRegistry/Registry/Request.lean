import ApnRegistry.Registry.Enforcement
import ApnRegistry.Registry.Insert
import ApnRegistry.Registry.Preferred
import ApnRegistry.Registry.Restoring
import ApnRegistry.Registry.Revision

/-!
# Requests

All public calls of a registry as one type, each with its caller, and their results as another, so
that a run of a registry is a list of requests (`Request.action`, `run`).
-/

namespace ApnRegistry

namespace Registry

/-- A public call. -/
inductive Request where
  | query (caller : Caller) (target : Target) (q : Predicate) (order : Order)
  | insert (caller : Caller) (target : Target) (p : Profile)
  | bulkInsert (caller : Caller) (target : Target) (ps : List Profile)
  | update (caller : Caller) (target : Target) (q : Predicate) (changes : Update)
  | delete (caller : Caller) (target : Target) (q : Predicate)
  | migrateAll (caller : Caller)
  | preferred (caller : Caller) (s : Subscription)
  | setPreferred (caller : Caller) (s : Subscription) (id : RowId)
  | clearPreferred (caller : Caller) (s : Subscription)
  | apnSet (caller : Caller) (s : Subscription)
  | simApnList (caller : Caller) (s : Subscription)
  | restoreToDefault (caller : Caller) (s : Subscription)
  | enforced (caller : Caller)
  | setEnforced (caller : Caller) (value : Bool)
  deriving Inhabited

/-- The result of a public call. -/
inductive Answer where
  | profiles (ps : List Profile)
  | profile (p : Option Profile)
  | id (id : Option RowId)
  | count (n : Nat)
  | flag (b : Bool)
  | report (r : Restore.Report)
  | done
  deriving DecidableEq, Inhabited

variable {σ : Type} [RowStore σ]

/-- The call that a request asks for. -/
def Request.action (setup : Setup) : Request → Action σ Answer
  | .query caller target q order => .profiles <$> Registry.query setup caller target q order
  | .insert caller target p => .id <$> Registry.insert setup caller target p
  | .bulkInsert caller target ps => .count <$> Registry.bulkInsert setup caller target ps
  | .update caller target q changes => .count <$> Registry.update setup caller target q changes
  | .delete caller target q => .count <$> Registry.delete setup caller target q
  | .migrateAll caller => .count <$> Registry.migrateAll setup caller
  | .preferred caller s => .profile <$> Registry.preferred setup caller s
  | .setPreferred caller s id => (fun _ => .done) <$> Registry.setPreferred setup caller s id
  | .clearPreferred caller s => .flag <$> Registry.clearPreferred setup caller s
  | .apnSet caller s => .profiles <$> Registry.apnSet setup caller s
  | .simApnList caller s => .profiles <$> Registry.simApnList setup caller s
  | .restoreToDefault caller s => .report <$> Registry.restoreToDefault setup caller s
  | .enforced caller => .flag <$> Registry.enforced setup caller
  | .setEnforced caller value => (fun _ => .done) <$> Registry.setEnforced setup caller value

/-- The state after a request, whether it succeeded or failed. -/
def Request.after (setup : Setup) (r : Request) (s : State σ) : State σ :=
  ((r.action setup).perform s).2

/-- The state after a run of requests. -/
def run (setup : Setup) (requests : List Request) (s : State σ) : State σ :=
  requests.foldl (fun s r => r.after setup s) s

end Registry

end ApnRegistry
