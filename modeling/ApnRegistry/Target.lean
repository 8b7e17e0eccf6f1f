import ApnRegistry.Predicate

/-!
# Targets

A request is addressed to a scope of the table as a whole, possibly narrowed to one subscription,
or to a single row of it.
-/

namespace ApnRegistry

/-- What a request is addressed to. -/
inductive Target where
  | table (scope : Scope) (subscription : Option Subscription)
  | row (scope : Scope) (id : RowId)
  deriving DecidableEq, Repr, Inhabited

namespace Target

/-- The scope that the request uses. -/
def scope : Target → Scope
  | table scope _ => scope
  | row scope _ => scope

/-- The subscription to which the request is narrowed. -/
def subscription? : Target → Option Subscription
  | table _ subscription => subscription
  | row .. => none

/-- The row that is addressed, or all rows. An id too large for its column addresses none. -/
def rowPredicate : Target → Predicate
  | table .. => .always
  | row _ id =>
    match id.value with
    | .null => Predicate.always.not
    | value => .equals .id value

end Target

end ApnRegistry
