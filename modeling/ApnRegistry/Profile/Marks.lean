import ApnRegistry.Error
import ApnRegistry.Text.Blank
import ApnRegistry.Text.Caseless

/-!
# Marks of a profile

Three small classifications that every profile carries: who owns it (`Owner`), what was done to it
by hand (`EditStatus`), and by what it narrows itself to one virtual operator (`MvnoKind`). Owners
and statuses have integer codes, kinds have names.
-/

namespace ApnRegistry

/-- Who a row belongs to. `others` comes before `dpc` wherever owners are sorted. -/
inductive Owner where
  /-- The user, the carrier or the factory list. -/
  | others
  /-- The device policy controller. -/
  | dpc
  deriving DecidableEq, Ord, Repr, Inhabited

namespace Owner

/-- Every owner, in order. -/
def all : List Owner := [.others, .dpc]

/-- The owner's code in the column of owners. -/
def code : Owner → Int64
  | dpc => 0
  | others => 1

/-- The owner with the given code. -/
def ofCode (code : Int64) : Except Error Owner :=
  match all.find? (·.code == code) with
  | some owner => .ok owner
  | none => .error (.unknownOwner code)

end Owner

/-- What was done to a row by hand. The four deletions are tombstones: the row stays stored to
remember the deletion and is hidden from every normal read. -/
inductive EditStatus where
  | unedited
  | userEdited
  | userDeleted
  | userDeletedButPresentInXml
  | carrierEdited
  | carrierDeleted
  | carrierDeletedButPresentInXml
  deriving DecidableEq, Repr, Inhabited

namespace EditStatus

/-- Every status, in the order of the codes. -/
def all : List EditStatus :=
  [.unedited, .userEdited, .userDeleted, .userDeletedButPresentInXml, .carrierEdited,
    .carrierDeleted, .carrierDeletedButPresentInXml]

/-- The status's code in the column of statuses. -/
def code : EditStatus → Int64
  | unedited => 0
  | userEdited => 1
  | userDeleted => 2
  | userDeletedButPresentInXml => 3
  | carrierEdited => 4
  | carrierDeleted => 5
  | carrierDeletedButPresentInXml => 6

/-- The status with the given code. -/
def ofCode (code : Int64) : Except Error EditStatus :=
  match all.find? (·.code == code) with
  | some status => .ok status
  | none => .error (.unknownStatus code)

/-- Nobody touched the row. -/
def isUnedited : EditStatus → Bool
  | unedited => true
  | _ => false

/-- The row is a tombstone. -/
def isDeleted : EditStatus → Bool
  | userDeleted | userDeletedButPresentInXml | carrierDeleted | carrierDeletedButPresentInXml =>
    true
  | _ => false

/-- The row was changed by hand and is still there. -/
def isEdited : EditStatus → Bool
  | userEdited | carrierEdited => true
  | _ => false

end EditStatus

/-- By what a profile narrows itself to one virtual operator on top of its numeric. -/
inductive MvnoKind where
  | none
  | spn
  | imsi
  | gid
  | iccid
  deriving DecidableEq, Ord, Repr, Inhabited

namespace MvnoKind

/-- Every kind, in order. -/
def all : List MvnoKind := [.none, .spn, .imsi, .gid, .iccid]

/-- The kind's text in its column; no constraint is the empty text. -/
def text : MvnoKind → String
  | none => ""
  | spn => "spn"
  | imsi => "imsi"
  | gid => "gid"
  | iccid => "iccid"

/-- Reads a kind's text, blanks around it and ASCII case aside. -/
def parse (s : String) : Except Error MvnoKind :=
  let name := String.ofList (Text.lower (Text.trim s.toList))
  match all.find? (·.text == name) with
  | some kind => .ok kind
  | Option.none => .error (.unknownMvnoKind name)

end MvnoKind

end ApnRegistry
