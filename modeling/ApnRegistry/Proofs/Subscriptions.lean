import ApnRegistry.Proofs.Intent
import ApnRegistry.Proofs.Restoration
import Mathlib.Tactic.Tauto

/-!
# The rows that belong to a subscription

A row is pinned to a subscription if the subscription names a SIM. It belongs to the subscription that it
is pinned to, or else to each one with its operator. An insert asks just that of a profile. Views and
restores compare the subscription of the row instead, with their own one and with a single mark of unpinned
rows. The two come apart on both sides: other subscriptions that name no SIM are not the mark, and a
restore may itself be called for one of them, or for the mark.

Results:
* `Selection.holds_ofSubscription_iff`, `Selection.belongs_iff_of_holds`: what the comparison says of rows
  that belong.
* `Registry.restoreToDefault_removes`: what a restore removes, and when all of that belongs to its
  subscription.
* `Registry.query_after_inserts`: what a view has of inserted rows, and when these are the rows that belong.
-/

namespace ApnRegistry

namespace Selection

variable {s : Subscription} {operator : Option String} {p : Profile}

/-- The row is pinned to the subscription, or it is not pinned and is of the SIM's operator. -/
def Belongs (s : Subscription) (operator : Option String) (p : Profile) : Prop :=
  p.subscription.isPinned = true ∧ p.subscription = s ∨
    p.subscription.isPinned = false ∧ operator = some p.numeric

instance : Decidable (Belongs s operator p) := inferInstanceAs (Decidable (_ ∨ _))

/-- **A view for a SIM has rows that belong to it**, of the unpinned ones those with the mark. -/
theorem holds_ofSubscription_iff (hs : s.isPinned = true) : (ofSubscription s operator).holds p = true ↔
    Belongs s operator p ∧ (p.subscription.isPinned = false → p.subscription = .unpinned) := by
  rw [holds_ofSubscription, Belongs]
  cases hp : p.subscription.isPinned with
  | true =>
    have hmark : p.subscription ≠ .unpinned := fun heq => by
      rw [heq] at hp
      cases hp
    simp [hmark]
  | false =>
    have hne : p.subscription ≠ s := fun heq => by
      rw [heq, hs] at hp
      cases hp
    simp [hne, and_comm]

/-- **A row that the comparison selects belongs** to the subscription, unless that names no SIM and the
row is of another operator. -/
theorem belongs_iff_of_holds (h : (ofSubscription s operator).holds p = true) :
    Belongs s operator p ↔ s.isPinned = true ∨ operator = some p.numeric := by
  cases hs : s.isPinned with
  | true => exact iff_of_true ((holds_ofSubscription_iff hs).mp h).1 (Or.inl rfl)
  | false =>
    have hp : p.subscription.isPinned = false := by
      rcases holds_ofSubscription.mp h with heq | ⟨heq, -⟩
      · rw [heq, hs]
      · rw [heq]
        rfl
    simp [Belongs, hp]

end Selection

namespace Registry

open Selection Table LegacyCodes

variable {setup : Setup} {caller : Caller} {sub : Subscription} {s s' : State Table} {p : Profile}
  {result : Except Error Restore.Report}

/-! ## What a restore removes -/

/-- A restore for one of several SIMs drops ordinary rows that the comparison selects. -/
theorem holds_of_drops (hslots : 1 < setup.device.slots)
    (h : (extentOf setup.device sub).drops p = true) :
    p.owner = .others ∧ (ofSubscription sub (setup.device.operator sub)).holds p = true := by
  unfold Restore.Extent.drops Restore.Extent.contains extentOf at h
  simp only [if_pos hslots, Bool.and_eq_true, beq_iff_eq] at h
  exact ⟨h.1.1.1, h.1.1.2.1⟩

/-- Some row that was stored as `p` is removed. -/
def Removed (s s' : State Table) (p : Profile) : Prop :=
  ∃ id, s.store.get? id = some p ∧ s'.store.get? id = none

/-- A restore that succeeds removes the rows that it drops, and a failed one removes none. -/
theorem removed_iff (hv : s.store.Valid)
    (h : (restoreToDefault setup caller sub).perform s = (result, s')) : Removed s s' p ↔
      (∃ report, result = .ok report) ∧ p ∈ s.store.rows.profiles ∧
        (extentOf setup.device sub).drops p = true := by
  cases result with
  | error e =>
    obtain rfl := eq_of_restoreToDefault_error hv h
    refine iff_of_false ?_ nofun
    rintro ⟨id, hg, hg'⟩
    rw [hg] at hg'
    cases hg'
  | ok report =>
    obtain ⟨-, t, hr, rfl⟩ := (restoreToDefault_eq_ok hv).mp h
    obtain ⟨-, seeding, -, -, rfl⟩ := (restored_eq_ok hv).mp hr
    have hgone {id : RowId} (hg : s.store.get? id = some p) :
        (s.store.reseeded (extentOf setup.device sub) seeding.waiting).get? id = none ↔
          (extentOf setup.device sub).drops p = true := by
      rw [get?_reseeded_of_some hv _ _ hg]
      cases (extentOf setup.device sub).drops p <;> simp
    rw [and_iff_right ⟨report, rfl⟩]
    constructor
    · rintro ⟨id, hg, hnone⟩
      exact ⟨hv.mem_profiles hg, (hgone hg).mp hnone⟩
    · rintro ⟨hm, hd⟩
      obtain ⟨id, -, hg⟩ := hv.mem_profiles_iff.mp hm
      exact ⟨id, hg, (hgone hg).mpr hd⟩

/-- **What a restore removes** on a device with several SIMs: ordinary rows that carry its subscription,
or that carry the mark of unpinned rows and its operator. If the subscription names a SIM, they all belong
to it. If not, a restore that succeeds removes rows that do not belong to it as soon as one that it drops
is not of its operator. -/
theorem restoreToDefault_removes (setup : Setup) (caller : Caller) (sub : Subscription)
    (s s' : State Table) (result : Except Error Restore.Report) (hv : s.store.Valid)
    (hslots : 1 < setup.device.slots)
    (h : (restoreToDefault setup caller sub).perform s = (result, s')) :
    let operator := setup.device.operator sub
    (∀ p, Removed s s' p → p.owner = .others ∧
      (p.subscription = sub ∨ p.subscription = .unpinned ∧ operator = some p.numeric)) ∧
    (sub.isPinned = true → ∀ p, Removed s s' p → Belongs sub operator p) ∧
    (sub.isPinned = false → ∀ report, result = .ok report →
      ((∀ p, Removed s s' p → Belongs sub operator p) ↔
        ∀ p ∈ s.store.rows.profiles, (extentOf setup.device sub).drops p = true →
          operator = some p.numeric)) := by
  intro operator
  have hholds (p : Profile) (hp : Removed s s' p) :=
    holds_of_drops hslots ((removed_iff hv h).mp hp).2.2
  refine ⟨fun p hp => (hholds p hp).imp_right holds_ofSubscription.mp, fun hs p hp => ?_,
    fun hs report hok => ?_⟩
  · exact (belongs_iff_of_holds (hholds p hp).2).mpr (Or.inl hs)
  · simp only [removed_iff hv h, hok]
    refine forall_congr' fun p => ?_
    rw [and_iff_right ⟨report, rfl⟩, and_imp]
    refine imp_congr_right fun _ => forall_congr' fun hd => ?_
    rw [belongs_iff_of_holds (holds_of_drops hslots hd).2, hs]
    exact or_iff_right Bool.false_ne_true

/-- A device with two SIM slots, of which the first has a SIM. -/
def twoSlots : Setup := { device := { sims := [(0, { operator := some "26201" })], phoneCount := 2 } }

/-- A row of the operator of that SIM, and one of another operator. Neither is pinned. -/
def twoOperators : State Table :=
  .initial twoSlots (.ofProfiles [{ apn := "web", numeric := "26201" }, { apn := "web", numeric := "31026" }])

/-- The row of the operator is removed, the other one stays. -/
theorem restoreToDefault_removes_web : 1 < twoSlots.device.slots ∧ ∃ s',
    (restoreToDefault twoSlots .system ⟨0⟩).perform twoOperators = (.ok { deleted := 1 }, s') ∧
      ∀ p, Removed twoOperators s' p → p.owner = .others ∧ Belongs ⟨0⟩ (some "26201") p := by
  have hslots : 1 < twoSlots.device.slots := by decide
  have hok : ((restoreToDefault twoSlots .system ⟨0⟩).perform twoOperators).1 =
      .ok { deleted := 1 } := by
    decide +kernel
  obtain ⟨s', h⟩ : ∃ s', (restoreToDefault twoSlots .system ⟨0⟩).perform twoOperators =
      (.ok { deleted := 1 }, s') := ⟨_, Prod.ext hok rfl⟩
  have hall := restoreToDefault_removes twoSlots .system ⟨0⟩ twoOperators s' _ (.ofProfiles _) hslots h
  exact ⟨hslots, s', h, fun p hp => ⟨(hall.1 p hp).1, hall.2.1 rfl p hp⟩⟩

/-- **A restore may remove rows that do not belong to its subscription**: one for the mark of unpinned rows
removes those of all operators. -/
theorem not_forall_belongs_of_removed : ¬∀ (setup : Setup) (caller : Caller) (sub : Subscription)
    (s s' : State Table) (report : Restore.Report), s.store.Valid → 1 < setup.device.slots →
    (restoreToDefault setup caller sub).perform s = (.ok report, s') →
    ∀ p, Removed s s' p → p.owner = .others ∧ Belongs sub (setup.device.operator sub) p := by
  intro hall
  have hok : ((restoreToDefault twoSlots .system .unpinned).perform twoOperators).1 =
      .ok { deleted := 2 } := by
    decide +kernel
  obtain ⟨s', h⟩ : ∃ s', (restoreToDefault twoSlots .system .unpinned).perform twoOperators =
      (.ok { deleted := 2 }, s') := ⟨_, Prod.ext hok rfl⟩
  let row : Profile := { id := some ⟨2⟩, apn := "web", numeric := "31026" }
  have hremoved : Removed twoOperators s' row :=
    (removed_iff (.ofProfiles _) h).mpr ⟨⟨_, rfl⟩, by decide, by decide⟩
  have hbelongs := hall twoSlots .system .unpinned twoOperators s' _ (.ofProfiles _) (by decide) h row
    hremoved
  exact absurd hbelongs.2 (by decide)

/-! ## What a view has -/

/-- The request inserts through the general scope. -/
def Request.InsertsGeneral : Request → Prop
  | .insert _ target _ | .bulkInsert _ target _ => target.scope = .general
  | _ => False

/-- **Inserts leave no row that waits.** -/
theorem allModern_run_inserts (setup : Setup) : ∀ (requests : List Request) {s : State Table},
    s.store.Valid → AllModern setup.device.known s.store.rows.profiles →
    (∀ r ∈ requests, r.InsertsGeneral) →
    AllModern setup.device.known (run setup requests s).store.rows.profiles
  | [], _, _, hm, _ => hm
  | r :: requests, s, hv, hm, hr => by
    have hone : AllModern setup.device.known (r.after setup s).store.rows.profiles := by
      have hr := hr r List.mem_cons_self
      rw [Request.after]
      cases r with
      | insert caller target p =>
        rw [Request.action, Action.perform_map, store_insert]
        exact allModern_insertProfiles hv hm
      | bulkInsert caller target ps =>
        rw [Request.action, Action.perform_map, store_bulkInsert]
        exact allModern_insertProfiles hv hm
      | _ => exact hr.elim
    rw [run_cons]
    exact allModern_run_inserts setup requests (valid_after r setup hv) hone
      fun r' hr' => hr r' (List.mem_cons_of_mem r hr')

/-- **What a view for a SIM has of inserted rows**: after any inserts through the general scope, into an
empty table, a query for the subscription succeeds and changes nothing. It lists the visible ordinary rows
that carry the subscription, or the mark of unpinned rows and its operator. These are all that belong to
the subscription iff every unpinned one of its operator carries the mark. -/
theorem query_after_inserts (setup : Setup) (requests : List Request) (s : State Table) (caller : Caller)
    (sub : Subscription) (operator : String) (order : Order) (hs : s.store = {})
    (hr : ∀ r ∈ requests, r.InsertsGeneral) (hsub : sub.isPinned = true)
    (hop : setup.device.operator sub = some operator) :
    let s' := run setup requests s
    ∃ found, (query setup caller (.table .general (some sub)) .always order).perform s' =
        (.ok found, s') ∧
      s'.store.Listing (fun p => p.owner = .others ∧ p.isVisible = true ∧
        (p.subscription = sub ∨ p.subscription = .unpinned ∧ p.numeric = operator)) order found ∧
      (s'.store.Listing (fun p => p.owner = .others ∧ p.isVisible = true ∧
          Belongs sub (some operator) p) order found ↔
        ∀ p ∈ s'.store.rows.profiles, p.owner = .others → p.isVisible = true →
          p.subscription.isPinned = false → p.numeric = operator → p.subscription = .unpinned) := by
  intro s'
  have hempty : s.store.Valid := hs ▸ .empty
  have hmodern : AllModern setup.device.known s.store.rows.profiles := by
    rw [hs]
    exact fun _ hp => absurd hp List.not_mem_nil
  have hv : s'.store.Valid := valid_run setup requests hempty
  have hm : AllModern setup.device.known s'.store.rows.profiles :=
    allModern_run_inserts setup requests hempty hmodern hr
  obtain ⟨partition, ho, ha⟩ := partitionFor_query_general setup caller (some sub) s'.enforced
  have hscan : AllModern setup.device.known (s'.store.scan partition.predicate order) :=
    fun p hp => hm p (mem_scan_predicate.mp hp).1
  have hview : s'.store.Listing (fun p => p.owner = .others ∧ p.isVisible = true ∧
      (ofSubscription sub (some operator)).holds p = true) order
      (answer setup (.table .general (some sub)) .always (s'.store.scan partition.predicate order)) := by
    refine (listing_answer hv rfl fun _ => hscan).congr fun p => ?_
    have htarget : (targetPredicate setup (.table .general (some sub))).holds p =
        (ofSubscription sub (some operator)).holds p := by
      rw [← hop]
      rfl
    rw [Sought, ho, htarget, Predicate.holds_always, and_iff_left rfl]
  refine ⟨_, perform_query_of_modern hv ha fun _ => hscan, hview.congr fun p => ?_, ?_⟩
  · rw [holds_ofSubscription, Option.some.injEq, eq_comm (a := operator)]
  · rw [hview.listing_iff]
    refine forall₂_congr fun p _ => ?_
    rw [holds_ofSubscription_iff hsub]
    cases hp : p.subscription.isPinned with
    | true => simp
    | false =>
      have hbelongs : Belongs sub (some operator) p ↔ p.numeric = operator := by
        simp [Belongs, hp, eq_comm]
      rw [hbelongs]
      tauto

/-- The inserts of rows of the SIM's operator, one of them pinned, and of a row of another operator. -/
def plainInserts : List Request :=
  [.bulkInsert .system (.table .general none)
      [{ apn := "web", numeric := "26201" }, { apn := "web", numeric := "31026" }],
    .insert .system (.table .general (some ⟨0⟩)) { apn := "mms", numeric := "31026" }]

/-- The unpinned row of the operator and the pinned row are all that belong to the SIM. -/
theorem query_after_inserts_plain :
    let s' : State Table := run twoSlots plainInserts (.initial twoSlots {})
    (∀ r ∈ plainInserts, r.InsertsGeneral) ∧ Subscription.isPinned ⟨0⟩ = true ∧
      twoSlots.device.operator ⟨0⟩ = some "26201" ∧
      ∃ found, (query twoSlots .system (.table .general (some ⟨0⟩)) .always .idAscending).perform s' =
          (.ok found, s') ∧
        s'.store.Listing (fun p => p.owner = .others ∧ p.isVisible = true ∧
          Belongs ⟨0⟩ (some "26201") p) .idAscending found := by
  intro s'
  have hr : ∀ r ∈ plainInserts, r.InsertsGeneral := by
    simp [plainInserts, Request.InsertsGeneral, Target.scope]
  have hop : twoSlots.device.operator ⟨0⟩ = some "26201" := by decide
  obtain ⟨found, hfound, -, hiff⟩ := query_after_inserts twoSlots plainInserts (.initial twoSlots {})
    .system ⟨0⟩ "26201" .idAscending rfl hr (by decide) hop
  exact ⟨hr, by decide, hop, found, hfound, hiff.mpr (by decide +kernel)⟩

/-- **Not every row that belongs to a SIM is in its view**: a row may be inserted with a subscription that
names no SIM and is not the mark of unpinned rows. -/
theorem not_forall_mem_query_of_belongs : ¬∀ (setup : Setup) (requests : List Request) (s s' : State Table)
    (caller : Caller) (sub : Subscription) (order : Order) (found : List Profile), s.store = {} →
    (∀ r ∈ requests, r.InsertsGeneral) → sub.isPinned = true →
    (query setup caller (.table .general (some sub)) .always order).perform (run setup requests s) =
      (.ok found, s') →
    ∀ p ∈ (run setup requests s).store.rows.profiles, p.owner = .others → p.isVisible = true →
      Belongs sub (setup.device.operator sub) p → p ∈ found := by
  intro hall
  let s : State Table := .initial twoSlots {}
  let requests : List Request :=
    [.insert .system (.table .general none) { apn := "web", numeric := "26201", subscription := ⟨-2⟩ }]
  let row : Profile := { id := some ⟨1⟩, apn := "web", numeric := "26201", subscription := ⟨-2⟩ }
  have hr : ∀ r ∈ requests, r.InsertsGeneral := by simp [requests, Request.InsertsGeneral, Target.scope]
  have hnone : ((query twoSlots .system (.table .general (some ⟨0⟩)) .always .idAscending).perform
      (run twoSlots requests s)).1 = .ok [] := by
    decide +kernel
  obtain ⟨s', h⟩ : ∃ s', (query twoSlots .system (.table .general (some ⟨0⟩)) .always .idAscending).perform
      (run twoSlots requests s) = (.ok [], s') := ⟨_, Prod.ext hnone rfl⟩
  have hrow : row ∈ (run twoSlots requests s).store.rows.profiles := by
    decide +kernel
  have hm := hall twoSlots requests s s' .system ⟨0⟩ .idAscending [] rfl hr (by decide) h
    row hrow rfl rfl (by decide)
  exact List.not_mem_nil hm

end Registry

end ApnRegistry
