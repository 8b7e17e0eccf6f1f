import ApnRegistry.Profile.Ids

/-!
# Preferred rows

For each subscription at most one row is preferred. The pointers do not follow the rows: one may
name a row that is gone.
-/

namespace ApnRegistry

/-- The preferred row of each subscription that has one; no subscription is listed twice. -/
abbrev Preferences := List (Subscription × RowId)

namespace Preferences

/-- The preferred row of the subscription. -/
def get? (ps : Preferences) (s : Subscription) : Option RowId := ps.lookup s

/-- The subscription prefers nothing. -/
def clear (ps : Preferences) (s : Subscription) : Preferences := ps.filter (·.1 != s)

/-- The subscription prefers the row. -/
def set (ps : Preferences) (s : Subscription) (id : RowId) : Preferences := (s, id) :: ps.clear s

end Preferences

end ApnRegistry
