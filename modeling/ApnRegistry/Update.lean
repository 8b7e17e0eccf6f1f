import ApnRegistry.Profile.Basic

/-!
# Updates

An `Update` assigns new values to some of a profile's fields. The id, the integer codes of old
tables, the owner and the subscription cannot be assigned, so an update never moves a row to
another shard (`shard_applied`).
-/

namespace ApnRegistry

/-- New values for some fields; a field without one is kept. -/
structure Update where
  name : Option String := none
  apn : Option String := none
  numeric : Option String := none
  mcc : Option String := none
  mnc : Option String := none
  proxy : Option String := none
  proxyPort : Option String := none
  mmsc : Option String := none
  mmsProxy : Option String := none
  mmsPort : Option String := none
  user : Option String := none
  password : Option String := none
  authType : Option Int32 := none
  apnTypes : Option String := none
  protocol : Option String := none
  roamingProtocol : Option String := none
  bearerBitmask : Option UInt32 := none
  carrierEnabled : Option Bool := none
  current : Option Bool := none
  mvnoKind : Option MvnoKind := none
  mvnoData : Option String := none
  apnSetId : Option Int32 := none
  status : Option EditStatus := none
  deriving DecidableEq, Inhabited

namespace Update

/-- Nothing is assigned. -/
def isEmpty (u : Update) : Bool := u == {}

/-- The profile with the assigned fields replaced. -/
def applied (u : Update) (p : Profile) : Profile where
  id := p.id
  name := u.name.getD p.name
  apn := u.apn.getD p.apn
  numeric := u.numeric.getD p.numeric
  mcc := u.mcc.getD p.mcc
  mnc := u.mnc.getD p.mnc
  legacyMcc := p.legacyMcc
  legacyMnc := p.legacyMnc
  proxy := u.proxy.getD p.proxy
  proxyPort := u.proxyPort.getD p.proxyPort
  mmsc := u.mmsc.getD p.mmsc
  mmsProxy := u.mmsProxy.getD p.mmsProxy
  mmsPort := u.mmsPort.getD p.mmsPort
  user := u.user.getD p.user
  password := u.password.getD p.password
  authType := u.authType.getD p.authType
  apnTypes := u.apnTypes.getD p.apnTypes
  protocol := u.protocol.getD p.protocol
  roamingProtocol := u.roamingProtocol.getD p.roamingProtocol
  bearerBitmask := u.bearerBitmask.getD p.bearerBitmask
  carrierEnabled := u.carrierEnabled.getD p.carrierEnabled
  current := u.current.getD p.current
  mvnoKind := u.mvnoKind.getD p.mvnoKind
  mvnoData := u.mvnoData.getD p.mvnoData
  apnSetId := u.apnSetId.getD p.apnSetId
  subscription := p.subscription
  owner := p.owner
  status := u.status.getD p.status

/-- An update leaves a row in its shard. -/
@[simp] theorem shard_applied (u : Update) (p : Profile) : (u.applied p).shard = p.shard := rfl

@[simp] theorem id_applied (u : Update) (p : Profile) : (u.applied p).id = p.id := rfl

end Update

end ApnRegistry
