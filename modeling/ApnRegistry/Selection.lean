import ApnRegistry.Mvno
import ApnRegistry.Predicate

/-!
# Selecting profiles for a subscription

Read-only views on rows that were already read. A subscription has the rows pinned to it and the
unpinned rows of its SIM's operator (`ofSubscription`). One row may be preferred; it then selects
the rows of its set (`apnSet`). For a SIM, the rows of its virtual operator go before the general
ones of its operator (`forSim`).
-/

namespace ApnRegistry.Selection

/-- The row is pinned to the subscription, or unpinned and of the SIM's operator. -/
def ofSubscription (s : Subscription) (operator : Option String) : Predicate :=
  let pinned := Predicate.equals .subscriptionId (.integer s.val.toInt64)
  match operator with
  | some numeric =>
    pinned.or ((Predicate.equals .subscriptionId (.integer Subscription.unpinned.val.toInt64)).and
      (Predicate.equals .numeric (.text numeric)))
  | none => pinned

/-- A row can be preferred while it is a visible row of the ordinary table. -/
def isPreferable (p : Profile) : Bool := p.isVisible && p.owner == .others

/-- The rows in the set of the preferred one, or all of them when none is preferred. -/
def apnSet (rows : List Profile) : Option Profile → List Profile
  | some preferred => rows.filter (·.apnSetId == preferred.apnSetId)
  | none => rows

/-- The best candidates for a SIM: the rows of its operator whose constraint it meets, and if there
is none, the rows of its operator without constraint. -/
def forSim (rows : List Profile) (sim : Sim) : List Profile :=
  match sim.operator with
  | none => []
  | some numeric =>
    let (narrow, general) := (rows.filter (·.numeric == numeric)).partition Profile.hasMvno
    let met := narrow.filter (Mvno.isMet · sim)
    if met.isEmpty then general else met

/-- The failure of choosing candidates for a SIM: that of its operator's first row whose pattern is
refused. -/
def refusal (engine : Mvno.Engine) (rows : List Profile) (sim : Sim) : Option Error :=
  match sim.operator with
  | none => none
  | some numeric => (rows.filter (·.numeric == numeric)).findSome? (Mvno.refusal engine · sim)

end ApnRegistry.Selection
