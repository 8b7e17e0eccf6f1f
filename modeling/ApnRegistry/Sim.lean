import ApnRegistry.Profile.Basic

/-!
# SIMs, devices and the factory list

What the registry asks of its surroundings: the identity of the SIM behind a subscription, the
operators that the device knows, and the profiles that the factory put in.
-/

namespace ApnRegistry

/-- The identity of one SIM. A field that is unknown matches no profile. -/
structure Sim where
  /-- The operator: country code followed by network code. -/
  operator : Option String := none
  /-- The name of the service provider. -/
  spn : Option String := none
  imsi : Option String := none
  /-- The first group identifier. -/
  gid1 : Option String := none
  iccid : Option String := none
  deriving DecidableEq, Inhabited

/-- The SIMs of a device and the operators it knows. -/
structure Device where
  known : List String := []
  /-- The SIMs by subscription, the latest entry of a subscription last. -/
  sims : List (Int32 × Sim) := []
  phoneCount : Nat := 0
  deriving DecidableEq, Inhabited

namespace Device

/-- The SIM behind the subscription, if there is one. -/
def sim? (d : Device) (s : Subscription) : Option Sim :=
  (d.sims.reverse.find? (·.1 == s.val)).map (·.2)

/-- The identity of the SIM behind the subscription; nothing is known of a missing one. -/
def sim (d : Device) (s : Subscription) : Sim := (d.sim? s).getD {}

/-- The operator of the SIM behind the subscription. -/
def operator (d : Device) (s : Subscription) : Option String := (d.sim s).operator

/-- The service provider of the SIM behind the subscription. -/
def spn (d : Device) (s : Subscription) : Option String := (d.sim s).spn

/-- The identity of the SIM as far as its operator and service provider go. -/
def minimalSim (d : Device) (s : Subscription) : Sim :=
  { operator := d.operator s, spn := d.spn s }

/-- The number of SIM slots, at least one. -/
def slots (d : Device) : Nat := max d.phoneCount 1

/-- The device with one more SIM, whose operator becomes known. -/
def withSim (d : Device) (s : Subscription) (sim : Sim) : Device :=
  { d with known := d.known ++ sim.operator.toList, sims := d.sims ++ [(s.val, sim)] }

end Device

/-- The profile as the factory list hands it out: without id and unedited. -/
def Profile.asFactory (p : Profile) : Profile :=
  { p with id := none, status := .unedited }

end ApnRegistry
