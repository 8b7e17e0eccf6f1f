import ApnRegistry.Codec.Profile
import ApnRegistry.Config
import ApnRegistry.Restore

/-!
# Documents that a registry is set up from

SIMs, devices, settings and lists of profiles, and the files that hold them. In a device's document
the SIMs stand under their subscriptions, written as integer literals; of several under one
subscription the last counts.
-/

namespace ApnRegistry

/-- The integer that a member's name is the literal of. -/
def Json.Quoted.int? (q : Json.Quoted) : Option Int :=
  match Json.scanNumber q.body with
  | some (.int n, []) => some n
  | _ => none

namespace Codec

/-- The fields of a SIM, in order. -/
def simFields : List (Member Sim) :=
  [ .of "mcc_mnc" text.nullable (·.operator) fun v s => { s with operator := v },
    .of "spn" text.nullable (·.spn) fun v s => { s with spn := v },
    .of "imsi" text.nullable (·.imsi) fun v s => { s with imsi := v },
    .of "gid1" text.nullable (·.gid1) fun v s => { s with gid1 := v },
    .of "iccid" text.nullable (·.iccid) fun v s => { s with iccid := v } ]

/-- SIMs. -/
def sim : Codec Sim := structured simFields {}

/-- SIMs under their subscriptions. -/
def sims : Codec (List (Int32 × Sim)) where
  write entries := .ofMembers (entries.map fun (s, entry) =>
    (String.ofList (Json.Number.print (.int s.toInt)), sim.write entry))
  read
    | .obj members => members.mapM fun (name, j) => do
      return (← int32.read (.ofInt (← name.int?)), ← sim.read j)
    | _ => none

/-- The fields of a device, in order. -/
def deviceFields : List (Member Device) :=
  [ .of "known" text.list (·.known) fun v d => { d with known := v },
    .of "sims" sims (·.sims) fun v d => { d with sims := v },
    .of "phone_count" natural (·.phoneCount) fun v d => { d with phoneCount := v } ]

/-- Devices. -/
def device : Codec Device := structured deviceFields {}

/-- The fields of the settings, in order. -/
def configFields : List (Member Config) :=
  [ .of "privileged_uids" uint32.list (·.privilegedUids) fun v c => { c with privilegedUids := v },
    .of "enforce_managed_default" boolean (·.enforceManagedDefault)
      fun v c => { c with enforceManagedDefault := v },
    .of "restore_max_attempts" uint32 (·.restoreMaxAttempts)
      fun v c => { c with restoreMaxAttempts := v },
    .of "notification_capacity" natural (·.notificationCapacity)
      fun v c => { c with notificationCapacity := v },
    .of "lazy_mcc_mnc_migration" boolean (·.lazyMccMncMigration)
      fun v c => { c with lazyMccMncMigration := v } ]

/-- Settings. -/
def config : Codec Config := structured configFields {}

end Codec

/-- A report of a restore, as a document. -/
def Restore.Report.document (r : Restore.Report) : Json :=
  .ofMembers [("deleted", .ofInt r.deleted), ("preserved", .ofInt r.preserved),
    ("seeded", .ofInt r.seeded)]

/-- The text of a file; there is none if the file is missing or not in UTF-8. -/
def fileText (content : Option ByteArray) : Except Error String :=
  match content.bind String.fromUTF8? with
  | some s => .ok s
  | none => .error .unreadableFile

/-- The profiles that a file lists. -/
def profilesOfFile (content : Option ByteArray) : Except Error (List Profile) := do
  Codec.profile.list.parse (← fileText content)

/-- The device that a file describes. -/
def deviceOfFile (content : Option ByteArray) : Except Error Device := do
  Codec.device.parse (← fileText content)

/-- The settings in a file, if they are usable. -/
def configOfFile (content : Option ByteArray) : Except Error Config := do
  (← Codec.config.parse (← fileText content)).validate

end ApnRegistry
