import ApnRegistry.Profile.Marks

/-!
# Access point profiles

A `Profile` is one row of the table: the parameters of an access point together with the operator,
subscription and owner it is meant for. Its `key` are the parameters on which two profiles count
as the same one; the display name, the credentials and the list of types are not among them. Its
`shard` is the pair of owner and subscription: profiles with equal keys share it.
-/

namespace ApnRegistry

/-- One access point profile. -/
structure Profile where
  /-- The row's name, once it is stored. -/
  id : Option RowId := none
  name : String := ""
  apn : String := ""
  /-- The operator: country code followed by network code. -/
  numeric : String := ""
  mcc : String := ""
  mnc : String := ""
  /-- The country code as an integer, the way old tables held it. -/
  legacyMcc : Option UInt16 := none
  /-- The network code as an integer, the way old tables held it. -/
  legacyMnc : Option UInt16 := none
  proxy : String := ""
  proxyPort : String := ""
  mmsc : String := ""
  mmsProxy : String := ""
  mmsPort : String := ""
  user : String := ""
  password : String := ""
  authType : Int32 := -1
  /-- The services the access point is for, separated by commas. -/
  apnTypes : String := ""
  protocol : String := "IP"
  roamingProtocol : String := "IP"
  bearerBitmask : UInt32 := 0
  carrierEnabled : Bool := true
  current : Bool := false
  mvnoKind : MvnoKind := .none
  /-- What the SIM is compared with, in the manner of `mvnoKind`. -/
  mvnoData : String := ""
  apnSetId : Int32 := 0
  subscription : Subscription := .unpinned
  owner : Owner := .others
  status : EditStatus := .unedited
  deriving DecidableEq, Inhabited

/-- The parameters on which profiles count as the same. Keys are ordered field by field. -/
structure Profile.Key where
  numeric : String
  mcc : String
  mnc : String
  apn : String
  proxy : String
  proxyPort : String
  mmsc : String
  mmsProxy : String
  mmsPort : String
  protocol : String
  roamingProtocol : String
  carrierEnabled : Bool
  bearerBitmask : UInt32
  mvnoKind : MvnoKind
  mvnoData : String
  subscription : Subscription
  owner : Owner
  deriving DecidableEq, Ord

/-- The part of the table that a row lives in: its owner and its subscription. -/
structure Shard where
  owner : Owner
  subscription : Subscription
  deriving DecidableEq, Ord, Repr, Inhabited

namespace Profile

/-- The parameters on which the profile counts as the same as another. -/
def key (p : Profile) : Key where
  numeric := p.numeric
  mcc := p.mcc
  mnc := p.mnc
  apn := p.apn
  proxy := p.proxy
  proxyPort := p.proxyPort
  mmsc := p.mmsc
  mmsProxy := p.mmsProxy
  mmsPort := p.mmsPort
  protocol := p.protocol
  roamingProtocol := p.roamingProtocol
  carrierEnabled := p.carrierEnabled
  bearerBitmask := p.bearerBitmask
  mvnoKind := p.mvnoKind
  mvnoData := p.mvnoData
  subscription := p.subscription
  owner := p.owner

/-- The part of the table that the profile lives in. -/
def shard (p : Profile) : Shard := ⟨p.owner, p.subscription⟩

/-- The profile is no tombstone. -/
def isVisible (p : Profile) : Bool := !p.status.isDeleted

/-- The profile narrows itself to one virtual operator. -/
def hasMvno (p : Profile) : Bool := p.mvnoKind != .none

/-- Profiles with equal keys live in the same shard. -/
theorem shard_eq_of_key_eq {p q : Profile} (h : p.key = q.key) : p.shard = q.shard := by
  have hs := congrArg Key.subscription h
  have ho := congrArg Key.owner h
  simp only [key] at hs ho
  simp [shard, hs, ho]

end Profile

end ApnRegistry
