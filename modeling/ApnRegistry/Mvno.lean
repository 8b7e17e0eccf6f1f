import ApnRegistry.Sim

/-!
# Virtual operators

A profile may narrow itself to the SIMs of one virtual operator. `Mvno.isMet` compares the
profile's data with the SIM in the manner of its kind:

* `spn`: the service provider's name is the data;
* `imsi`: the IMSI starts with the pattern, in which `x` and `X` stand for one ASCII digit;
* `gid`: the group identifier starts with the data, ASCII case aside;
* `iccid`: the ICCID starts with the data.

Empty data and a field that the SIM does not have match nothing. A profile without constraint
matches nothing either, but every SIM is admitted to it (`Mvno.admits`).

IMSI patterns are run by an engine of their own, which may object to a pattern, for its length say.
Whoever compares a profile with a SIM asks for the engine's objection first (`Mvno.refusal`).
-/

namespace ApnRegistry.Mvno

/-- The pattern character accepts the character of the IMSI. -/
def acceptsChar (pattern c : Char) : Bool :=
  if pattern = 'x' || pattern = 'X' then c.isDigit else pattern == c

/-- The pattern accepts the start of the IMSI, character by character. -/
def acceptsStart : List Char → List Char → Bool
  | [], _ => true
  | _ :: _, [] => false
  | p :: ps, c :: cs => acceptsChar p c && acceptsStart ps cs

/-- The pattern is run on the IMSI: there is one, and it has no more bytes than the IMSI. -/
def isTried (pattern imsi : String) : Bool :=
  !pattern.isEmpty && decide (pattern.utf8ByteSize ≤ imsi.utf8ByteSize)

/-- The IMSI starts with the pattern. A pattern with more bytes than the IMSI is not tried. -/
def imsiMatches (pattern imsi : String) : Bool :=
  isTried pattern imsi && acceptsStart pattern.toList imsi.toList

/-- The characters that fill exactly the first `n` bytes, if a character ends there. -/
def bytePrefix? : Nat → List Char → Option (List Char)
  | 0, _ => some []
  | _ + 1, [] => none
  | n + 1, c :: cs =>
    if c.utf8Size ≤ n + 1 then (bytePrefix? (n + 1 - c.utf8Size) cs).map (c :: ·) else none

/-- The group identifier starts with `data`, ASCII case aside. -/
def gidMatches (data gid : String) : Bool :=
  !data.isEmpty && ((bytePrefix? data.utf8ByteSize gid.toList).any (Text.sameCaseless · data.toList))

/-- The ICCID starts with `data`. -/
def iccidMatches (data iccid : String) : Bool :=
  !data.isEmpty && data.toList.isPrefixOf iccid.toList

/-- The service provider is the one named by `data`. -/
def spnMatches (data spn : String) : Bool := !data.isEmpty && spn == data

/-- The SIM meets the profile's constraint; without a constraint there is nothing to meet. -/
def isMet (p : Profile) (sim : Sim) : Bool :=
  match p.mvnoKind with
  | .none => false
  | .spn => sim.spn.any (spnMatches p.mvnoData)
  | .imsi => sim.imsi.any (imsiMatches p.mvnoData)
  | .gid => sim.gid1.any (gidMatches p.mvnoData)
  | .iccid => sim.iccid.any (iccidMatches p.mvnoData)

/-- The profile is open to the SIM: it has no constraint, or the SIM meets it. -/
def admits (p : Profile) (sim : Sim) : Bool := !p.hasMvno || isMet p sim

/-- What an engine objects to in an IMSI pattern, if anything. -/
abbrev Engine := String → Option String

/-- The failure of comparing the profile with the SIM: its pattern is tried, and the engine objects. -/
def refusal (engine : Engine) (p : Profile) (sim : Sim) : Option Error :=
  match p.mvnoKind, sim.imsi with
  | .imsi, some imsi =>
    if isTried p.mvnoData imsi then (engine p.mvnoData).map (.refusedPattern p.mvnoData ·) else none
  | _, _ => none

end ApnRegistry.Mvno
