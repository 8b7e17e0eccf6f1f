import ApnRegistry.Codec.Members
import ApnRegistry.Profile.Basic
import ApnRegistry.Update

/-!
# Documents of profiles and updates
-/

namespace ApnRegistry

/-- The owner's name in documents. -/
def Owner.tag : Owner → String
  | others => "OTHERS"
  | dpc => "DPC"

/-- The status's name in documents. -/
def EditStatus.tag : EditStatus → String
  | unedited => "UNEDITED"
  | userEdited => "USER_EDITED"
  | userDeleted => "USER_DELETED"
  | userDeletedButPresentInXml => "USER_DELETED_BUT_PRESENT_IN_XML"
  | carrierEdited => "CARRIER_EDITED"
  | carrierDeleted => "CARRIER_DELETED"
  | carrierDeletedButPresentInXml => "CARRIER_DELETED_BUT_PRESENT_IN_XML"

/-- The kind's name in documents. -/
def MvnoKind.tag : MvnoKind → String
  | none => "none"
  | spn => "spn"
  | imsi => "imsi"
  | gid => "gid"
  | iccid => "iccid"

namespace Codec

/-- Row ids. -/
def rowId : Codec RowId := natural.wrapped (·.val) (⟨·⟩)

/-- Subscriptions. -/
def subscription : Codec Subscription := int32.wrapped (·.val) (⟨·⟩)

/-- Owners. -/
def owner : Codec Owner := symbol Owner.all Owner.tag

/-- Edit statuses. -/
def editStatus : Codec EditStatus := symbol EditStatus.all EditStatus.tag

/-- Kinds of virtual operators. -/
def mvnoKind : Codec MvnoKind := symbol MvnoKind.all MvnoKind.tag

/-- The fields of a profile, in order. -/
def profileFields : List (Member Profile) :=
  [ .of "id" rowId.nullable (·.id) fun v p => { p with id := v },
    .of "name" text (·.name) fun v p => { p with name := v },
    .of "apn" text (·.apn) fun v p => { p with apn := v },
    .of "numeric" text (·.numeric) fun v p => { p with numeric := v },
    .of "mcc" text (·.mcc) fun v p => { p with mcc := v },
    .of "mnc" text (·.mnc) fun v p => { p with mnc := v },
    .of "legacy_mcc" uint16.nullable (·.legacyMcc) fun v p => { p with legacyMcc := v },
    .of "legacy_mnc" uint16.nullable (·.legacyMnc) fun v p => { p with legacyMnc := v },
    .of "proxy" text (·.proxy) fun v p => { p with proxy := v },
    .of "port" text (·.proxyPort) fun v p => { p with proxyPort := v },
    .of "mmsc" text (·.mmsc) fun v p => { p with mmsc := v },
    .of "mms_proxy" text (·.mmsProxy) fun v p => { p with mmsProxy := v },
    .of "mms_port" text (·.mmsPort) fun v p => { p with mmsPort := v },
    .of "user" text (·.user) fun v p => { p with user := v },
    .of "password" text (·.password) fun v p => { p with password := v },
    .of "auth_type" int32 (·.authType) fun v p => { p with authType := v },
    .of "apn_types" text (·.apnTypes) fun v p => { p with apnTypes := v },
    .of "protocol" text (·.protocol) fun v p => { p with protocol := v },
    .of "roaming_protocol" text (·.roamingProtocol) fun v p => { p with roamingProtocol := v },
    .of "bearer_bitmask" uint32 (·.bearerBitmask) fun v p => { p with bearerBitmask := v },
    .of "carrier_enabled" boolean (·.carrierEnabled) fun v p => { p with carrierEnabled := v },
    .of "current" boolean (·.current) fun v p => { p with current := v },
    .of "mvno_type" mvnoKind (·.mvnoKind) fun v p => { p with mvnoKind := v },
    .of "mvno_match_data" text (·.mvnoData) fun v p => { p with mvnoData := v },
    .of "apn_set_id" int32 (·.apnSetId) fun v p => { p with apnSetId := v },
    .of "subscription_id" subscription (·.subscription) fun v p => { p with subscription := v },
    .of "owned_by" owner (·.owner) fun v p => { p with owner := v },
    .of "edited_status" editStatus (·.status) fun v p => { p with status := v } ]

/-- Profiles. -/
def profile : Codec Profile := structured profileFields {}

/-- The fields of an update, in order. -/
def updateFields : List (Member Update) :=
  [ .of "name" text.nullable (·.name) fun v u => { u with name := v },
    .of "apn" text.nullable (·.apn) fun v u => { u with apn := v },
    .of "numeric" text.nullable (·.numeric) fun v u => { u with numeric := v },
    .of "mcc" text.nullable (·.mcc) fun v u => { u with mcc := v },
    .of "mnc" text.nullable (·.mnc) fun v u => { u with mnc := v },
    .of "proxy" text.nullable (·.proxy) fun v u => { u with proxy := v },
    .of "port" text.nullable (·.proxyPort) fun v u => { u with proxyPort := v },
    .of "mmsc" text.nullable (·.mmsc) fun v u => { u with mmsc := v },
    .of "mms_proxy" text.nullable (·.mmsProxy) fun v u => { u with mmsProxy := v },
    .of "mms_port" text.nullable (·.mmsPort) fun v u => { u with mmsPort := v },
    .of "user" text.nullable (·.user) fun v u => { u with user := v },
    .of "password" text.nullable (·.password) fun v u => { u with password := v },
    .of "auth_type" int32.nullable (·.authType) fun v u => { u with authType := v },
    .of "apn_types" text.nullable (·.apnTypes) fun v u => { u with apnTypes := v },
    .of "protocol" text.nullable (·.protocol) fun v u => { u with protocol := v },
    .of "roaming_protocol" text.nullable (·.roamingProtocol)
      fun v u => { u with roamingProtocol := v },
    .of "bearer_bitmask" uint32.nullable (·.bearerBitmask) fun v u => { u with bearerBitmask := v },
    .of "carrier_enabled" boolean.nullable (·.carrierEnabled)
      fun v u => { u with carrierEnabled := v },
    .of "current" boolean.nullable (·.current) fun v u => { u with current := v },
    .of "mvno_type" mvnoKind.nullable (·.mvnoKind) fun v u => { u with mvnoKind := v },
    .of "mvno_match_data" text.nullable (·.mvnoData) fun v u => { u with mvnoData := v },
    .of "apn_set_id" int32.nullable (·.apnSetId) fun v u => { u with apnSetId := v },
    .of "edited_status" editStatus.nullable (·.status) fun v u => { u with status := v } ]

/-- Updates. -/
def update : Codec Update := structured updateFields {}

end Codec

end ApnRegistry
