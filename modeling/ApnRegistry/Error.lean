import ApnRegistry.Profile.Ids
import ApnRegistry.Scope

/-!
# Failures

`Error` lists the causes for which a call can fail. Each cause belongs to one `Error.Kind`, and
the text shown for it is the heading of its kind followed by a detail (`Error.message`).

`Error.reported` carries a failure that arose outside the registry, in the row store or in the
file system, with the text it came with.
-/

namespace ApnRegistry

/-- The families of failures. -/
inductive Error.Kind where
  /-- The caller may not do this. -/
  | security
  /-- A policy row would collide with another. -/
  | conflict
  /-- Rows that should be unique are not, or a row is not fit for its use. -/
  | integrity
  /-- The named row does not exist. -/
  | notFound
  /-- The request makes no sense. -/
  | invalidInput
  /-- The row store failed for good. -/
  | storage
  /-- The row store failed, and trying again may help. -/
  | transient
  /-- The configuration is unusable. -/
  | config
  /-- A lock could not be taken. -/
  | lock
  /-- A file could not be read. -/
  | file
  /-- A text is not the expected document. -/
  | document
  deriving DecidableEq, Repr, Inhabited

/-- What every message of the kind starts with. -/
def Error.Kind.heading : Error.Kind → String
  | security => "Security error: "
  | conflict => "Conflict rejected: "
  | integrity => "Integrity violation: "
  | notFound => "Not found: "
  | invalidInput => "Invalid input: "
  | storage => "Storage error: "
  | transient => "Transient storage failure: "
  | config => "Configuration error: "
  | lock => "Lock error: "
  | file => "I/O error: "
  | document => "JSON error: "

/-- Why a call failed. -/
inductive Error where
  /-- The caller is not on the list of the privileged ones. -/
  | scopeForbidden (uid : UInt32) (verb : Verb) (scope : Scope)
  /-- The caller lacks the permission to write the general table. -/
  | writeForbidden (uid : UInt32)
  /-- A new policy row has the key of a stored one. -/
  | dpcInsertCollides (apn : String)
  /-- A policy row would take the key of another row. -/
  | dpcUpdateCollides (row hit : Option RowId)
  /-- A policy row would take the key of several rows. -/
  | dpcUpdateCollidesWithMany (row : Option RowId) (count : Nat)
  /-- Several stored rows share the key of one profile. -/
  | ambiguousKey (count : Nat) (apn numeric : String)
  /-- The row is hidden, foreign or missing, so no subscription may prefer it. -/
  | notPreferable (id : RowId)
  /-- No row has this id. -/
  | unknownRow (id : RowId)
  /-- A new profile already carries an id. -/
  | insertWithId (id : RowId)
  /-- A profile that should replace a row carries no id. -/
  | replaceWithoutId
  /-- A new profile is addressed to a single row. -/
  | insertIntoRow
  /-- The enforcement scope holds no rows. -/
  | enforcementHasNoRows
  /-- No owner has this code. -/
  | unknownOwner (code : Int64)
  /-- No edit status has this code. -/
  | unknownStatus (code : Int64)
  /-- No kind of virtual operator has this name. -/
  | unknownMvnoKind (name : String)
  /-- The engine that runs IMSI patterns does not take this one. -/
  | refusedPattern (pattern reason : String)
  /-- A restore is given no attempt at all. -/
  | noRestoreAttempts
  /-- The notice board can hold nothing. -/
  | noNoticeCapacity
  /-- The matched rows moved to other shards each time they were locked. -/
  | rowsKeptMoving
  /-- An earlier holder of the lock failed while it held it. -/
  | poisonedLock
  /-- The file is missing, unreadable or not text. -/
  | unreadableFile
  /-- The text is not a document of the expected form. -/
  | malformedDocument
  /-- A failure from outside, with its own text. -/
  | reported (kind : Error.Kind) (text : String)
  deriving DecidableEq, Repr, Inhabited

namespace Error

/-- The family that a cause belongs to. -/
def kind : Error → Kind
  | scopeForbidden .. | writeForbidden _ => .security
  | dpcInsertCollides _ | dpcUpdateCollides .. | dpcUpdateCollidesWithMany .. => .conflict
  | ambiguousKey .. | notPreferable _ => .integrity
  | unknownRow _ => .notFound
  | insertWithId _ | replaceWithoutId | insertIntoRow | enforcementHasNoRows => .invalidInput
  | unknownOwner _ | unknownStatus _ | unknownMvnoKind _ | refusedPattern .. => .invalidInput
  | noRestoreAttempts | noNoticeCapacity => .config
  | rowsKeptMoving => .transient
  | poisonedLock => .lock
  | unreadableFile => .file
  | malformedDocument => .document
  | reported kind _ => kind

/-- The cause in words. -/
def detail : Error → String
  | scopeForbidden uid verb scope =>
    s!"uid {uid.toNat} may not {verb.name} the {scope.name} scope"
  | writeForbidden uid => s!"uid {uid.toNat} lacks WriteApnSettings"
  | dpcInsertCollides apn => s!"DPC apn '{apn}' collides with an existing row"
  | dpcUpdateCollides row hit =>
    s!"DPC update of row {RowId.describe row} collides with row {RowId.describe hit}"
  | dpcUpdateCollidesWithMany row count =>
    s!"DPC update of row {RowId.describe row} collides with {count} rows"
  | ambiguousKey count apn numeric =>
    s!"{count} existing rows collide with apn '{apn}' numeric '{numeric}'"
  | notPreferable id => s!"row {id.val} cannot be the preferred apn"
  | unknownRow id => s!"row {id.val}"
  | insertWithId id => s!"insert of a record that already carries id {id.val}"
  | replaceWithoutId => "replace of a record without id"
  | insertIntoRow => "insert needs a table target"
  | enforcementHasNoRows => "the enforce_managed scope only exposes the enforcement flag"
  | unknownOwner code => s!"unknown owned_by code {code.toInt}"
  | unknownStatus code => s!"unknown edited status {code.toInt}"
  | unknownMvnoKind name => s!"unknown mvno_type '{name}'"
  | refusedPattern pattern reason => s!"imsi pattern '{pattern}': {reason}"
  | noRestoreAttempts => "restore_max_attempts must be at least 1"
  | noNoticeCapacity => "notification_capacity must be at least 1"
  | rowsKeptMoving => "matched rows kept changing scope while locking"
  | poisonedLock => "poisoned lock: another task failed inside"
  | unreadableFile => "the file cannot be read"
  | malformedDocument => "the text is not a document of the expected form"
  | reported _ text => text

/-- The text shown for a failure. -/
def message (e : Error) : String := e.kind.heading ++ e.detail

/-- Running the failed call again from the start may succeed. -/
def isRetryable (e : Error) : Bool := e.kind == .transient

end Error

end ApnRegistry
