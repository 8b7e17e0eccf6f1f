import ApnRegistry.RowStore

/-!
# Rehearsed stores

A `Rehearsal` is a table in memory that fails and is tampered with on schedule, to try out how the
registry copes with a store that other processes use and that may be out of order.

* A scheduled *failure* is returned by the next call of its method, which then does nothing. Failures
  last until they are used up, oldest first.
* A scheduled *intrusion* changes a row right after the `after`-th call of its method, counted from
  the last `start`; a call that fails is counted and triggers nothing.
-/

namespace ApnRegistry

/-- The calls of a row store. -/
inductive Rehearsal.Method where
  | get
  | query
  | apply
  deriving DecidableEq, Repr, Inhabited

/-- A change of the table from outside. -/
structure Rehearsal.Intrusion where
  method : Rehearsal.Method
  /-- The number of the call after which the change happens. -/
  after : Nat
  change : Table → Table

/-- A table with scheduled failures and intrusions. -/
structure Rehearsal where
  table : Table := {}
  failures : List (Rehearsal.Method × Error) := []
  intrusions : List Rehearsal.Intrusion := []
  /-- The methods called since the last `start`. -/
  calls : List Rehearsal.Method := []

namespace Rehearsal

/-- Replaces the profile's row, or stores a profile without id; what cannot be done is not. -/
def Intrusion.putting (p : Profile) (t : Table) : Table :=
  match t.put p with
  | .ok (_, t) => t
  | .error _ => t

/-- Starts to count calls anew. -/
def start (r : Rehearsal) : Rehearsal := { r with calls := [] }

/-- Schedules a failure `times` times. -/
def failing (r : Rehearsal) (method : Method) (e : Error) (times : Nat) : Rehearsal :=
  { r with failures := r.failures ++ List.replicate times (method, e) }

/-- Schedules an intrusion. -/
def intruding (r : Rehearsal) (i : Intrusion) : Rehearsal :=
  { r with intrusions := r.intrusions ++ [i] }

/-- Forgets the intrusions. -/
def undisturbed (r : Rehearsal) : Rehearsal := { r with intrusions := [] }

/-- The oldest failure scheduled for the method, and the failures that remain. -/
def takeFailure (method : Method) :
    List (Method × Error) → Option (Error × List (Method × Error))
  | [] => none
  | (m, e) :: rest =>
    if m = method then some (e, rest)
    else (takeFailure method rest).map fun (found, rest) => (found, (m, e) :: rest)

/-- One call: count it, fail if a failure is due, else do it and let the due intrusions happen. -/
def call {α : Type} (r : Rehearsal) (method : Method)
    (act : Table → Except Error α × Table) : Except Error α × Rehearsal :=
  let r := { r with calls := method :: r.calls }
  match takeFailure method r.failures with
  | some (e, failures) => (.error e, { r with failures })
  | none =>
    match act r.table with
    | (.error e, table) => (.error e, { r with table })
    | (.ok a, table) =>
      let due := r.intrusions.filter fun i =>
        i.method == method && i.after == r.calls.count method
      (.ok a, { r with table := due.foldl (fun t i => i.change t) table })

instance : RowStore Rehearsal where
  get id r := r.call .get (RowStore.get id)
  query q order r := r.call .query (RowStore.query q order)
  apply batch r := r.call .apply (RowStore.apply batch)

end Rehearsal

end ApnRegistry
