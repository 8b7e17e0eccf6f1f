import ApnRegistry.Profile.Basic
import ApnRegistry.Text.Decimal

/-!
# Integer codes of old tables

Old tables held the country and network code as integers, which loses the zeros in front: network
code 5 may have been written `05` or `005`. `mncText` picks the spelling that belongs to a known
operator, and failing that the one that is usual in the country. `pending` fills the text columns
of a profile that only has the integers.
-/

namespace ApnRegistry.LegacyCodes

/-- The countries whose operators use network codes of three digits. -/
def threeDigitCountries : List UInt16 :=
  [302, 310, 311, 312, 313, 314, 315, 316, 334, 338, 342, 344, 346, 348, 354, 356, 358, 360, 365,
    366, 376, 405, 708, 722, 732, 750]

/-- Network codes of the country have three digits. -/
def usesThreeDigits (mcc : UInt16) : Bool := threeDigitCountries.contains mcc

/-- The number in at least `width` decimal digits. -/
def spelled (width : Nat) (code : UInt16) : String :=
  String.ofList (Text.padded width code.toNat)

/-- The text of a country code. -/
def mccText (mcc : UInt16) : String := spelled 3 mcc

/-- The text of a network code: of the spellings with three and with two digits the first that
belongs to a known operator, else the one usual in the country. From 100 on there is one only. -/
def mncText (known : List String) (mcc mnc : UInt16) : String :=
  let three := spelled 3 mnc
  let two := spelled 2 mnc
  if 100 ≤ mnc then three
  else if known.contains (mccText mcc ++ three) then three
  else if known.contains (mccText mcc ++ two) then two
  else if usesThreeDigits mcc then three
  else two

/-- The profile with its text columns filled from the integer codes. There is nothing to fill when
both texts are there already, or when a code is missing. -/
def pending (known : List String) (p : Profile) : Option Profile :=
  if !p.mcc.isEmpty && !p.mnc.isEmpty then none
  else
    match p.legacyMcc, p.legacyMnc with
    | some mcc, some mnc =>
      let mccNow := mccText mcc
      let mncNow := mncText known mcc mnc
      some { p with
        mcc := mccNow
        mnc := mncNow
        numeric := if p.numeric.isEmpty then mccNow ++ mncNow else p.numeric }
    | _, _ => none

/-- The profile in modern form. -/
def modernized (known : List String) (p : Profile) : Profile := (pending known p).getD p

end ApnRegistry.LegacyCodes
