import ApnRegistry.Update

/-!
# Updates as assignments

An update assigns the same values to every profile, so carrying it out a second time changes nothing, and
an update that follows another one is carried out together with it by a single update (`followedBy`).

The key of an updated profile depends on the update and on the key it had, so an update is a function on
keys (`onKey`), and one that is settled once it was applied (`onKey_onKey`). This is why rows can be updated
one after the other: a key that an update has given to one row is not changed by that update on any other row.

Results:
* `applied_followedBy`, `applied_applied`: updates one after the other.
* `key_applied_of_key_eq`: a key that an update leads to stays as it is.
* `applied_settles`: what updates assign, and what they leave alone.
-/

namespace ApnRegistry.Update

variable {u : Update} {p q : Profile}

/-! ## Updates one after the other -/

/-- The update that assigns what `v` assigns, and to the other fields what `u` assigns. -/
def followedBy (u v : Update) : Update where
  name := v.name.or u.name
  apn := v.apn.or u.apn
  numeric := v.numeric.or u.numeric
  mcc := v.mcc.or u.mcc
  mnc := v.mnc.or u.mnc
  proxy := v.proxy.or u.proxy
  proxyPort := v.proxyPort.or u.proxyPort
  mmsc := v.mmsc.or u.mmsc
  mmsProxy := v.mmsProxy.or u.mmsProxy
  mmsPort := v.mmsPort.or u.mmsPort
  user := v.user.or u.user
  password := v.password.or u.password
  authType := v.authType.or u.authType
  apnTypes := v.apnTypes.or u.apnTypes
  protocol := v.protocol.or u.protocol
  roamingProtocol := v.roamingProtocol.or u.roamingProtocol
  bearerBitmask := v.bearerBitmask.or u.bearerBitmask
  carrierEnabled := v.carrierEnabled.or u.carrierEnabled
  current := v.current.or u.current
  mvnoKind := v.mvnoKind.or u.mvnoKind
  mvnoData := v.mvnoData.or u.mvnoData
  apnSetId := v.apnSetId.or u.apnSetId
  status := v.status.or u.status

/-- **Two updates are one**, in which the later one comes first. -/
theorem applied_followedBy (u v : Update) (p : Profile) :
    (u.followedBy v).applied p = v.applied (u.applied p) := by
  simp only [applied, followedBy, Option.getD_or]

theorem followedBy_self (u : Update) : u.followedBy u = u := by
  simp only [followedBy, Option.or_self]

/-- An update that was carried out has nothing left to do. -/
theorem applied_applied (u : Update) (p : Profile) : u.applied (u.applied p) = u.applied p := by
  rw [← applied_followedBy, followedBy_self]

/-! ## Keys -/

/-- What the update makes of a key. -/
def onKey (u : Update) (k : Profile.Key) : Profile.Key where
  numeric := u.numeric.getD k.numeric
  mcc := u.mcc.getD k.mcc
  mnc := u.mnc.getD k.mnc
  apn := u.apn.getD k.apn
  proxy := u.proxy.getD k.proxy
  proxyPort := u.proxyPort.getD k.proxyPort
  mmsc := u.mmsc.getD k.mmsc
  mmsProxy := u.mmsProxy.getD k.mmsProxy
  mmsPort := u.mmsPort.getD k.mmsPort
  protocol := u.protocol.getD k.protocol
  roamingProtocol := u.roamingProtocol.getD k.roamingProtocol
  carrierEnabled := u.carrierEnabled.getD k.carrierEnabled
  bearerBitmask := u.bearerBitmask.getD k.bearerBitmask
  mvnoKind := u.mvnoKind.getD k.mvnoKind
  mvnoData := u.mvnoData.getD k.mvnoData
  subscription := k.subscription
  owner := k.owner

theorem key_applied (u : Update) (p : Profile) : (u.applied p).key = u.onKey p.key := rfl

theorem onKey_onKey (u : Update) (k : Profile.Key) : u.onKey (u.onKey k) = u.onKey k := by
  simp only [onKey, ← Option.getD_or, Option.or_self]

/-- **A key that an update leads to stays as it is**: where the updated `p` has the key of `q`, the update
does not change the key of `q`. -/
theorem key_applied_of_key_eq (h : (u.applied p).key = q.key) : (u.applied q).key = q.key :=
  calc (u.applied q).key
    _ = u.onKey (u.applied p).key := by rw [key_applied, h]
    _ = (u.applied p).key := u.onKey_onKey p.key
    _ = q.key := h

/-- A row with the key of an updated one lives in its shard. -/
theorem shard_eq_of_key_eq (h : q.key = (u.applied p).key) : q.shard = p.shard :=
  (Profile.shard_eq_of_key_eq h).trans (u.shard_applied p)

/-- **What updates assign, and what they leave alone.** A key that an update has given to one row stays as
it is on any other row that has it, so that the two end up with one key. No update changes the id, the codes
of old tables, the owner or the subscription. A second time it changes nothing, and two updates in a row are
the one that takes each value from the later of the two that assigns it. -/
theorem applied_settles (u v : Update) (a b : Profile) :
    ((u.applied a).key = b.key →
      (u.applied b).key = b.key ∧ (u.applied a).key = (u.applied b).key) ∧
    ((u.applied a).id = a.id ∧ (u.applied a).legacyMcc = a.legacyMcc ∧
      (u.applied a).legacyMnc = a.legacyMnc ∧ (u.applied a).owner = a.owner ∧
      (u.applied a).subscription = a.subscription) ∧
    u.applied (u.applied a) = u.applied a ∧
    v.applied (u.applied a) = (u.followedBy v).applied a := by
  refine ⟨fun h => ?_, ⟨rfl, rfl, rfl, rfl, rfl⟩, applied_applied u a, (applied_followedBy u v a).symm⟩
  have hb := key_applied_of_key_eq h
  exact ⟨hb, h.trans hb.symm⟩

/-- An update gives a row the key of another one, on which it then changes the name only. A second update takes
the name back and leaves the other changes. -/
theorem applied_settles_renamed :
    let u : Update := { apn := some "mms", name := some "MMS", mvnoKind := some .gid }
    let v : Update := { name := some "Web", status := some .userEdited }
    let a : Profile := { id := some ⟨1⟩, apn := "web", name := "Web", numeric := "26201" }
    let b : Profile :=
      { id := some ⟨2⟩, apn := "mms", name := "Old", numeric := "26201", mvnoKind := .gid }
    (u.applied a).key = b.key ∧ (u.applied b).key = b.key ∧ u.applied b = { b with name := "MMS" } ∧
      v.applied (u.applied a) = { a with apn := "mms", mvnoKind := .gid, status := .userEdited } := by
  intro u v a b
  have h : (u.applied a).key = b.key := rfl
  obtain ⟨hkey, -, -, htwo⟩ := applied_settles u v a b
  exact ⟨h, (hkey h).1, rfl, htwo⟩

end ApnRegistry.Update
