import ApnRegistry.Profile.Basic
import ApnRegistry.Value

/-!
# Columns

The columns by which rows can be selected, and the value that each holds in a profile. The integer
codes of old tables are no columns.
-/

namespace ApnRegistry

/-- A column of the table. -/
inductive Column where
  | id
  | name
  | apn
  | numeric
  | mcc
  | mnc
  | proxy
  | proxyPort
  | mmsc
  | mmsProxy
  | mmsPort
  | user
  | password
  | authType
  | apnTypes
  | protocol
  | roamingProtocol
  | bearerBitmask
  | carrierEnabled
  | current
  | mvnoType
  | mvnoMatchData
  | apnSetId
  | subscriptionId
  | ownedBy
  | editedStatus
  deriving DecidableEq, Repr, Inhabited

namespace Column

/-- Every column, in order. -/
def all : List Column :=
  [.id, .name, .apn, .numeric, .mcc, .mnc, .proxy, .proxyPort, .mmsc, .mmsProxy, .mmsPort, .user,
    .password, .authType, .apnTypes, .protocol, .roamingProtocol, .bearerBitmask, .carrierEnabled,
    .current, .mvnoType, .mvnoMatchData, .apnSetId, .subscriptionId, .ownedBy, .editedStatus]

/-- The column's name. -/
def title : Column → String
  | id => "id"
  | name => "name"
  | apn => "apn"
  | numeric => "numeric"
  | mcc => "mcc"
  | mnc => "mnc"
  | proxy => "proxy"
  | proxyPort => "port"
  | mmsc => "mmsc"
  | mmsProxy => "mms_proxy"
  | mmsPort => "mms_port"
  | user => "user"
  | password => "password"
  | authType => "auth_type"
  | apnTypes => "apn_types"
  | protocol => "protocol"
  | roamingProtocol => "roaming_protocol"
  | bearerBitmask => "bearer_bitmask"
  | carrierEnabled => "carrier_enabled"
  | current => "current"
  | mvnoType => "mvno_type"
  | mvnoMatchData => "mvno_match_data"
  | apnSetId => "apn_set_id"
  | subscriptionId => "subscription_id"
  | ownedBy => "owned_by"
  | editedStatus => "edited_status"

end Column

/-- The value of a row id: an id that no signed 64-bit integer can hold counts as missing. -/
def RowId.value (id : RowId) : Value :=
  if id.val ≤ Int64.maxValue.toInt then .integer (Int64.ofNat id.val) else .null

namespace Profile

/-- What the column holds in the profile. -/
def value (p : Profile) : Column → Value
  | .id => (p.id.map RowId.value).getD .null
  | .name => .text p.name
  | .apn => .text p.apn
  | .numeric => .text p.numeric
  | .mcc => .text p.mcc
  | .mnc => .text p.mnc
  | .proxy => .text p.proxy
  | .proxyPort => .text p.proxyPort
  | .mmsc => .text p.mmsc
  | .mmsProxy => .text p.mmsProxy
  | .mmsPort => .text p.mmsPort
  | .user => .text p.user
  | .password => .text p.password
  | .authType => .integer p.authType.toInt64
  | .apnTypes => .text p.apnTypes
  | .protocol => .text p.protocol
  | .roamingProtocol => .text p.roamingProtocol
  | .bearerBitmask => .integer (Int64.ofNat p.bearerBitmask.toNat)
  | .carrierEnabled => .boolean p.carrierEnabled
  | .current => .boolean p.current
  | .mvnoType => .text p.mvnoKind.text
  | .mvnoMatchData => .text p.mvnoData
  | .apnSetId => .integer p.apnSetId.toInt64
  | .subscriptionId => .integer p.subscription.val.toInt64
  | .ownedBy => .integer p.owner.code
  | .editedStatus => .integer p.status.code

end Profile

end ApnRegistry
