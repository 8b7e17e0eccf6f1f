import ApnRegistry.Proofs.Confinement
import ApnRegistry.Proofs.Ledger
import ApnRegistry.Proofs.Restoration
import Mathlib.Data.List.Induction

/-!
# Preferred rows along a run

What a subscription prefers is a pointer to a row, and the row may go. Only three requests decide what a
subscription prefers (`Request.steer`): one that sets its pointer, one that clears it, and a restore that
covers it. `Pointer` says of a run which row it set most recently, unless the pointer was cleared since.

Since ids are handed out once (`Ledger.Counts`) and rows do not come back (`Table.Moves.get?_eq_none`), a
pointer whose row went *dangles*, and it dangles until it is set again.

Results:
* `Request.preferences_after`: one request.
* `preferences_run_iff_pointer`: a run.
* `State.Dangles.run`: what dangles goes on to dangle.
* `issued_once_and_never_retargeted`: ids and pointers along every run of a new registry.
-/

namespace ApnRegistry

namespace Preferences

theorem get?_clear (ps : Preferences) (s other : Subscription) :
    (ps.clear s).get? other = if other = s then none else ps.get? other := by
  induction ps with
  | nil => simp [clear, get?]
  | cons entry ps ih =>
    obtain ⟨first, id⟩ := entry
    simp only [clear, get?] at ih ⊢
    by_cases hf : first = s
    · -- The entry is left out, and was not that of another subscription.
      subst hf
      rw [List.filter_cons_of_neg (by simp), ih, List.lookup_cons]
      split
      · rfl
      · rename_i hne
        rw [beq_eq_false_iff_ne.mpr hne]
    · rw [List.filter_cons_of_pos (by simp [hf]), List.lookup_cons, List.lookup_cons, ih]
      by_cases ho : other = first
      · rw [if_neg (ho ▸ hf), if_neg (ho ▸ hf)]
      · rw [beq_eq_false_iff_ne.mpr ho]

theorem get?_set (ps : Preferences) (s other : Subscription) (id : RowId) :
    (ps.set s id).get? other = if other = s then some id else ps.get? other := by
  rw [set, get?, List.lookup_cons]
  split
  · rename_i h
    rw [if_pos (beq_iff_eq.mp h)]
  · rename_i h
    rw [if_neg (beq_eq_false_iff_ne.mp h)]
    exact (get?_clear ps s other).trans (if_neg (beq_eq_false_iff_ne.mp h))

end Preferences

namespace Registry

open Registry.Action

variable {α : Type} {setup : Setup} {caller : Caller} {sub : Subscription} {s : State Table} {id : RowId}
  {r : Request}

/-! ## What a request does to the pointers -/

/-- **Plain calls leave the pointers.** -/
def pointersLeft : Congruence Table Table := leaving State.preferences fun _ _ _ => rfl

theorem leaves_setEnforced {value : Bool} :
    (setEnforced setup caller value : Action Table Unit).Leaves State.preferences := by
  refine Leaves.bind (fun s => by rw [perform_authorize]) fun _ => ?_
  refine Leaves.bind (a := get) (fun _ => rfl) fun st => Leaves.bind (fun _ => rfl) fun _ => ?_
  show (if st.enforced ≠ value then _ else _ : Action Table Unit).Leaves _
  split
  · exact fun _ => rfl
  · exact fun _ => rfl

/-- The request succeeds in the state. -/
def Request.Succeeds (setup : Setup) (r : Request) (s : State Table) : Prop :=
  ∃ answer, ((r.action setup).perform s).1 = .ok answer

/-- What is preferred after a request that succeeds. -/
def Request.steer (setup : Setup) : Request → Preferences → Preferences
  | .setPreferred _ sub id, ps => ps.set sub id
  | .clearPreferred _ sub, ps => ps.clear sub
  | .restoreToDefault _ sub, ps =>
    if (extentOf setup.device sub).subscription.isSome then ps.clear sub else []
  | _, ps => ps

/-- A call that maps to an answer succeeds as the answer does. -/
theorem succeeds_map {a : Action Table α} {f : α → Answer} (h : r.action setup = f <$> a) :
    r.Succeeds setup s ↔ ∃ x, (a.perform s).1 = .ok x := by
  rw [Request.Succeeds, h, perform_map]
  cases (a.perform s).1 with
  | error e => exact ⟨fun ⟨_, h⟩ => (nomatch h), fun ⟨_, h⟩ => (nomatch h)⟩
  | ok x => exact ⟨fun _ => ⟨x, rfl⟩, fun _ => ⟨f x, rfl⟩⟩

theorem preferences_after_of_perform {a : Action Table α} {f : α → Answer}
    (h : r.action setup = f <$> a) :
    (r.after setup s).preferences = (a.perform s).2.preferences := by
  rw [Request.after, h, perform_map]

/-- **What is preferred after a request**: one that succeeds steers the pointers, and one that fails
leaves them. -/
theorem Request.preferences_after (r : Request) (setup : Setup) (hv : s.store.Valid) :
    (r.Succeeds setup s ∧ (r.after setup s).preferences = r.steer setup s.preferences) ∨
      (¬r.Succeeds setup s ∧ (r.after setup s).preferences = s.preferences) := by
  -- A request that steers nothing leaves the pointers in either case.
  have hleft (hsteer : r.steer setup s.preferences = s.preferences)
      (h : (r.action setup : Action Table Answer).Leaves State.preferences) :
      (r.Succeeds setup s ∧ (r.after setup s).preferences = r.steer setup s.preferences) ∨
        (¬r.Succeeds setup s ∧ (r.after setup s).preferences = s.preferences) := by
    rw [hsteer]
    exact (em _).imp (⟨·, h s⟩) (⟨·, h s⟩)
  cases r with
  | setPreferred caller sub id =>
    rw [succeeds_map rfl, preferences_after_of_perform rfl]
    cases ha : setup.policy.authorize caller .general .update s.enforced with
    | error e =>
      rw [perform_setPreferred_of_error ha]
      exact Or.inr ⟨nofun, rfl⟩
    | ok partition =>
      cases hp : s.store.preferable id with
      | none =>
        rw [perform_setPreferred_of_none ha hp]
        exact Or.inr ⟨nofun, rfl⟩
      | some p =>
        rw [perform_setPreferred_of_some ha hp]
        exact Or.inl ⟨⟨_, rfl⟩, rfl⟩
  | clearPreferred caller sub =>
    rw [succeeds_map rfl, preferences_after_of_perform rfl]
    cases ha : setup.policy.authorize caller .general .update s.enforced with
    | error e =>
      rw [perform_clearPreferred_of_error ha]
      exact Or.inr ⟨nofun, rfl⟩
    | ok partition =>
      obtain ⟨board, hp⟩ : ∃ board, (Registry.clearPreferred setup caller sub).perform s =
          (.ok _, { s with preferences := s.preferences.clear sub, board := board }) :=
        perform_clearPreferred_of_ok ha
      rw [hp]
      exact Or.inl ⟨⟨_, rfl⟩, rfl⟩
  | restoreToDefault caller sub =>
    rw [succeeds_map rfl, preferences_after_of_perform rfl, perform_restoreToDefault _ _ _ hv]
    cases setup.policy.authorize caller .general .update s.enforced with
    | error e => exact Or.inr ⟨nofun, rfl⟩
    | ok partition =>
      cases s.store.restored setup.engine setup.defaults (extentOf setup.device sub) with
      | error e => exact Or.inr ⟨nofun, rfl⟩
      | ok result => exact Or.inl ⟨⟨_, rfl⟩, rfl⟩
  | setEnforced caller value =>
    refine hleft rfl fun s => ?_
    rw [action, perform_map]
    exact leaves_setEnforced s
  | _ => exact hleft rfl (pointersLeft.rel_request setup trivial)

/-- The request decides what the subscription prefers if it succeeds. On a device with one SIM, a
restore covers all subscriptions. -/
def Request.decides (setup : Setup) (sub : Subscription) : Request → Prop
  | .setPreferred _ other _ => other = sub
  | .clearPreferred _ other => other = sub
  | .restoreToDefault _ other => setup.device.slots ≤ 1 ∨ other = sub
  | _ => False

/-- The row that a request makes preferred. -/
def Request.names : Request → Option RowId
  | .setPreferred _ _ id => some id
  | _ => none

theorem get?_steer (r : Request) (setup : Setup) (ps : Preferences) (sub : Subscription) :
    (r.decides setup sub ∧ (r.steer setup ps).get? sub = r.names) ∨
      (¬r.decides setup sub ∧ (r.steer setup ps).get? sub = ps.get? sub) := by
  cases r with
  | setPreferred caller other id =>
    by_cases h : sub = other
    · exact Or.inl ⟨h.symm, (ps.get?_set other sub id).trans (if_pos h)⟩
    · exact Or.inr ⟨Ne.symm h, (ps.get?_set other sub id).trans (if_neg h)⟩
  | clearPreferred caller other =>
    by_cases h : sub = other
    · exact Or.inl ⟨h.symm, (ps.get?_clear other sub).trans (if_pos h)⟩
    · exact Or.inr ⟨Ne.symm h, (ps.get?_clear other sub).trans (if_neg h)⟩
  | restoreToDefault caller other =>
    by_cases hd : 1 < setup.device.slots
    · simp only [Request.decides, Request.steer, extentOf, hd, if_true, Option.isSome_some,
        Nat.not_le.mpr hd, false_or]
      by_cases h : sub = other
      · exact Or.inl ⟨h.symm, (ps.get?_clear other sub).trans (if_pos h)⟩
      · exact Or.inr ⟨Ne.symm h, (ps.get?_clear other sub).trans (if_neg h)⟩
    · refine Or.inl ⟨Or.inl (Nat.not_lt.mp hd), ?_⟩
      simp only [Request.steer, extentOf, hd, if_false, Option.isSome_none, Bool.false_eq_true]
      rfl
  | _ => exact Or.inr ⟨not_false, rfl⟩

/-! ## Pointers along a run -/

/-- The request settles what the subscription prefers from then on. -/
def Request.Settles (setup : Setup) (sub : Subscription) (r : Request) (s : State Table) : Prop :=
  r.Succeeds setup s ∧ r.decides setup sub

/-- The pointer of a subscription after one more request. -/
theorem get?_preferences_after (r : Request) (setup : Setup) (sub : Subscription)
    (hv : s.store.Valid) :
    (r.Settles setup sub s ∧ (r.after setup s).preferences.get? sub = r.names) ∨
      (¬r.Settles setup sub s ∧
        (r.after setup s).preferences.get? sub = s.preferences.get? sub) := by
  rcases r.preferences_after setup hv with ⟨hok, hp⟩ | ⟨hfail, hp⟩
  · rw [hp]
    rcases get?_steer r setup s.preferences sub with ⟨hd, hg⟩ | ⟨hd, hg⟩
    · exact Or.inl ⟨⟨hok, hd⟩, hg⟩
    · exact Or.inr ⟨fun h => hd h.2, hg⟩
  · rw [hp]
    exact Or.inr ⟨fun h => hfail h.1, rfl⟩

/-- The row that a run set most recently for the subscription, if nothing cleared the pointer since: no
later request settled what the subscription prefers. -/
inductive Pointer (setup : Setup) (sub : Subscription) (start : State Table) :
    List Request → RowId → Prop
  | set {requests : List Request} {caller : Caller} {id : RowId}
      (ok : (Request.setPreferred caller sub id).Succeeds setup (run setup requests start)) :
      Pointer setup sub start (requests ++ [.setPreferred caller sub id]) id
  | keep {requests : List Request} {r : Request} {id : RowId}
      (before : Pointer setup sub start requests id)
      (other : ¬r.Settles setup sub (run setup requests start)) :
      Pointer setup sub start (requests ++ [r]) id

theorem run_append (setup : Setup) (requests later : List Request) (s : State Table) :
    run setup (requests ++ later) s = run setup later (run setup requests s) :=
  List.foldl_append

theorem run_snoc (setup : Setup) (requests : List Request) (r : Request) (s : State Table) :
    run setup (requests ++ [r]) s = r.after setup (run setup requests s) :=
  run_append setup requests [r] s

/-- The last request of a run set the pointer, or left it. -/
theorem pointer_snoc_iff {start : State Table} {requests : List Request} :
    Pointer setup sub start (requests ++ [r]) id ↔
      (r.Settles setup sub (run setup requests start) ∧ r.names = some id) ∨
        (¬r.Settles setup sub (run setup requests start) ∧ Pointer setup sub start requests id) := by
  constructor
  · generalize hall : requests ++ [r] = all
    rintro (@⟨requests', caller, _, ok⟩ | @⟨requests', r', _, before, other⟩)
    · obtain ⟨rfl, hr⟩ := List.append_inj' hall rfl
      obtain rfl := List.singleton_inj.mp hr
      exact Or.inl ⟨⟨ok, rfl⟩, rfl⟩
    · obtain ⟨rfl, hr⟩ := List.append_inj' hall rfl
      obtain rfl := List.singleton_inj.mp hr
      exact Or.inr ⟨other, before⟩
  · rintro (⟨⟨ok, hd⟩, hn⟩ | ⟨other, before⟩)
    · cases r with
      | setPreferred caller other id' =>
        obtain rfl : id' = id := Option.some.inj hn
        obtain rfl : other = sub := hd
        exact .set ok
      | _ => cases hn
    · exact .keep before other

/-- **The pointer of a subscription is the row that was set most recently** and not cleared since. -/
theorem preferences_run_iff_pointer {start : State Table} (setup : Setup) (sub : Subscription)
    (hv : start.store.Valid) (hstart : start.preferences = []) (requests : List Request) :
    (run setup requests start).preferences.get? sub = some id ↔
      Pointer setup sub start requests id := by
  induction requests using List.reverseRecOn with
  | nil =>
    constructor
    · intro h
      rw [show (run setup [] start).preferences = [] from hstart] at h
      cases h
    · generalize hall : ([] : List Request) = all
      rintro (_ | _)
      · cases List.append_eq_nil_iff.mp hall.symm |>.2
      · cases List.append_eq_nil_iff.mp hall.symm |>.2
  | append_singleton requests r ih =>
    rw [run_snoc, pointer_snoc_iff, ← ih]
    rcases get?_preferences_after r setup sub (valid_run setup requests hv) with ⟨hd, hg⟩ | ⟨hd, hg⟩
    · rw [hg]
      exact ⟨fun h => Or.inl ⟨hd, h⟩, fun h => h.elim And.right fun h => absurd hd h.1⟩
    · rw [hg]
      exact ⟨fun h => Or.inr ⟨hd, h⟩, fun h => h.elim (fun h => absurd h.1 hd) And.right⟩

/-! ## Rows that are gone -/

theorem gone_after (r : Request) (setup : Setup) (hv : s.store.Valid)
    (hid : id.val < s.store.nextId) (hg : s.store.get? id = none) :
    id.val < (r.after setup s).store.nextId ∧ (r.after setup s).store.get? id = none :=
  ⟨Nat.lt_of_lt_of_le hid (r.moves setup hv).nextId_le, (r.moves setup hv).get?_eq_none hid hg⟩

/-- **A row that is gone is gone for good.** -/
theorem gone_run (setup : Setup) : ∀ (later : List Request) {s : State Table}, s.store.Valid →
    id.val < s.store.nextId → s.store.get? id = none → (run setup later s).store.get? id = none
  | [], _, _, _, hg => hg
  | r :: later, _, hv, hid, hg =>
    have hafter := gone_after r setup hv hid hg
    gone_run setup later (valid_after r setup hv) hafter.1 hafter.2

/-- The subscription prefers a row that is gone, or nothing. -/
def State.Dangles (sub : Subscription) (s : State Table) : Prop :=
  ∀ id, s.preferences.get? sub = some id → id.val < s.store.nextId ∧ s.store.get? id = none

/-- No request of the run sets the pointer of the subscription. -/
def NeverSet (setup : Setup) (sub : Subscription) (later : List Request) (s : State Table) : Prop :=
  ∀ before caller id rest, later = before ++ .setPreferred caller sub id :: rest →
    ¬(Request.setPreferred caller sub id).Succeeds setup (run setup before s)

theorem NeverSet.tail {later : List Request} (h : NeverSet setup sub (r :: later) s) :
    NeverSet setup sub later (r.after setup s) :=
  fun before caller id rest hl => h (r :: before) caller id rest (congrArg (r :: ·) hl)

/-- **What dangles goes on to dangle**, unless the request sets the pointer. -/
theorem State.Dangles.after (h : s.Dangles sub) (hv : s.store.Valid)
    (hset : ∀ caller id, r = .setPreferred caller sub id → ¬r.Succeeds setup s) :
    (r.after setup s).Dangles sub := by
  intro id hid
  rcases get?_preferences_after r setup sub hv with ⟨⟨hok, hd⟩, hg⟩ | ⟨-, hg⟩
  · rw [hg] at hid
    cases r with
    | setPreferred caller other id' =>
      obtain rfl : other = sub := hd
      exact absurd hok (hset caller id' rfl)
    | _ => cases hid
  · obtain ⟨hlt, hgone⟩ := h id (hg.symm.trans hid)
    exact gone_after r setup hv hlt hgone

theorem State.Dangles.run : ∀ {later : List Request} {s : State Table}, s.Dangles sub →
    s.store.Valid → NeverSet setup sub later s → (Registry.run setup later s).Dangles sub
  | [], _, h, _, _ => h
  | r :: _, _, h, hv, hset =>
    (h.after hv fun caller id hr => by
      subst hr
      exact hset [] caller id _ rfl).run (valid_after r setup hv) hset.tail

/-- Everyone may ask what is preferred. -/
theorem perform_preferred_eq_ok (setup : Setup) (caller : Caller) (sub : Subscription)
    (s : State Table) : (preferred setup caller sub).perform s =
      (.ok ((s.preferences.get? sub).bind s.store.preferable), s) := by
  have ha : setup.policy.authorize caller .general .query s.enforced = .ok (.ofOwner .others .query) :=
    Policy.authorize_eq_ok.mpr ⟨nofun, nofun, rfl⟩
  rw [perform_preferred, ha]
  rfl

theorem State.Dangles.preferred (h : s.Dangles sub) (caller : Caller) :
    (Registry.preferred setup caller sub).perform s = (.ok none, s) := by
  rw [perform_preferred_eq_ok]
  cases hp : s.preferences.get? sub with
  | none => rfl
  | some id =>
    rw [Option.bind_some, Table.preferable, (h id hp).2]
    rfl

/-- A row that a run made preferred was there, so that its id was handed out. -/
theorem Pointer.lt_nextId {start : State Table} {requests : List Request} (hv : start.store.Valid)
    (h : Pointer setup sub start requests id) : id.val < (run setup requests start).store.nextId := by
  induction h with
  | @set requests caller id ok =>
    have hv' := valid_run setup requests hv
    rw [run_snoc]
    refine Nat.lt_of_lt_of_le ?_ (Request.moves _ setup hv').nextId_le
    obtain ⟨x, hx⟩ := (succeeds_map rfl).mp ok
    cases ha : setup.policy.authorize caller .general .update (run setup requests start).enforced with
    | error e =>
      rw [perform_setPreferred_of_error ha] at hx
      cases hx
    | ok partition =>
      cases hp : (run setup requests start).store.preferable id with
      | none =>
        rw [perform_setPreferred_of_none ha hp] at hx
        cases hx
      | some p => exact hv'.lt_nextId (Option.filter_eq_some_iff.mp hp).1
  | @keep requests r id before other ih =>
    rw [run_snoc]
    exact Nat.lt_of_lt_of_le ih (r.moves setup (valid_run setup requests hv)).nextId_le

/-- **Ids are handed out once, and pointers never go to another row.** Along every run of a new registry
over an empty table:
* The ids of all rows that were ever inserted are different, `n` of them leave `n + 1` as the next id, so
  that it is a word of 64 bits while `n` is less than 2 ^ 64 - 1, and a stored row has one of them.
* A row that is gone is gone for good.
* What a subscription prefers is the row that was set most recently and not cleared since, while this is
  a visible ordinary row, and nothing otherwise.
* Once the row is gone, nothing is preferred until another one is set. -/
theorem issued_once_and_never_retargeted (setup : Setup) (requests : List Request)
    (sub : Subscription) (caller : Caller) :
    let start : State Table := .initial setup {}
    let l : State Ledger := run setup requests (.initial setup {})
    let s : State Table := run setup requests start
    (l.tabled = s ∧ l.store.issued.Nodup ∧ s.store.nextId = l.store.issued.length + 1 ∧
      ∀ id p, s.store.get? id = some p → p.id = some id ∧ id ∈ l.store.issued) ∧
    (∀ later id, id ∈ l.store.issued → s.store.get? id = none →
      (run setup later s).store.get? id = none) ∧
    (∃ o, (preferred setup caller sub).perform s = (.ok o, s) ∧
      ∀ p, o = some p ↔ ∃ id, Pointer setup sub start requests id ∧
        s.store.get? id = some p ∧ p.id = some id ∧ p.isVisible = true ∧ p.owner = .others) ∧
    ∀ later id, Pointer setup sub start requests id → s.store.get? id = none →
      NeverSet setup sub later s →
      (preferred setup caller sub).perform (run setup later s) = (.ok none, run setup later s) := by
  intro start l s
  have hv : s.store.Valid := valid_run setup requests .empty
  obtain ⟨htabled, hcounts⟩ := run_ledger setup requests
    (s := (.initial setup {} : State Ledger)) .start
  have htable : l.store.table = s.store := congrArg State.store htabled
  have hpointer {id : RowId} :
      s.preferences.get? sub = some id ↔ Pointer setup sub start requests id :=
    preferences_run_iff_pointer setup sub .empty rfl requests
  have hissued {id : RowId} : id ∈ l.store.issued ↔ 1 ≤ id.val ∧ id.val < s.store.nextId := by
    rw [← htable]
    exact hcounts.mem_issued
  refine ⟨⟨htabled, hcounts.nodup, htable ▸ hcounts.next, fun id p hg => ?_⟩,
    fun later id hid hg => ?_, ⟨_, perform_preferred_eq_ok setup caller sub s, fun p => ?_⟩,
    fun later id hid hg hset => ?_⟩
  · exact ⟨hv.id_of_get? hg, hissued.mpr (hv.bounded _ (Rows.mem_of_get? hg))⟩
  · exact gone_run setup later hv (hissued.mp hid).2 hg
  · rw [Option.bind_eq_some_iff]
    refine exists_congr fun id => and_congr hpointer ?_
    rw [Table.preferable, Option.filter_eq_some_iff, Selection.isPreferable, Bool.and_eq_true,
      beq_iff_eq]
    exact ⟨fun h => ⟨h.1, hv.id_of_get? h.1, h.2⟩, fun h => ⟨h.1, h.2.2⟩⟩
  · have hdangles : s.Dangles sub := by
      intro other hother
      obtain rfl : other = id := Option.some.inj (hother.symm.trans (hpointer.mpr hid))
      exact ⟨hid.lt_nextId .empty, hg⟩
    exact (hdangles.run hv hset).preferred caller

/-- A row is inserted, preferred and deleted, and then inserted again: it comes back under another id, and
nothing is preferred. -/
theorem issued_once_and_never_retargeted_deleted :
    let p : Profile := { apn := "web", numeric := "26201", status := .userEdited }
    let start : State Table := .initial {} {}
    let requests : List Request := [.insert .system (.table .general none) p,
      .setPreferred .system ⟨0⟩ ⟨1⟩, .delete .system (.table .general none) .always]
    let later : List Request := [.insert .system (.table .general none) p]
    let s : State Table := run {} requests start
    Pointer {} ⟨0⟩ start requests ⟨1⟩ ∧ s.store.get? ⟨1⟩ = none ∧ NeverSet {} ⟨0⟩ later s ∧
      (run {} later s).store.get? ⟨2⟩ = some { p with id := some ⟨2⟩ } ∧
      (run {} later s).store.get? ⟨1⟩ = none ∧
      (preferred {} .phone ⟨0⟩).perform (run {} later s) = (.ok none, run {} later s) := by
  intro p start requests later s
  have hset : (Request.setPreferred .system ⟨0⟩ ⟨1⟩).Succeeds {} (run {} (requests.take 1) start) :=
    ⟨.done, by decide +kernel⟩
  have hpointer : Pointer {} ⟨0⟩ start requests ⟨1⟩ :=
    .keep (.set hset) fun h => h.2
  have hgone : s.store.get? ⟨1⟩ = none := by decide +kernel
  have hnever : NeverSet {} ⟨0⟩ later s := by
    intro before caller id rest h
    have hm : .setPreferred caller ⟨0⟩ id ∈ later := h ▸ List.mem_append_right _ List.mem_cons_self
    cases List.mem_singleton.mp hm
  obtain ⟨-, hstays, -, hdangles⟩ :=
    issued_once_and_never_retargeted {} requests ⟨0⟩ .phone
  exact ⟨hpointer, hgone, hnever, by decide +kernel, hstays later ⟨1⟩ (by decide +kernel) hgone,
    hdangles later ⟨1⟩ hpointer hgone hnever⟩

end Registry

end ApnRegistry
