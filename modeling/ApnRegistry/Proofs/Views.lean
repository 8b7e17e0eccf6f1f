import ApnRegistry.Proofs.Pointers
import ApnRegistry.Proofs.QueryOutcome
import ApnRegistry.Proofs.VirtualOperators

/-!
# What the views of a subscription show

Both views start from the rows of the subscription (`Selection.OfView`), which a query reads after it has
put rows into modern form. The set of the preferred row needs the pointer besides. It is followed in the
table that the query leaves, so that a row which the query itself merged away is preferred no more. The
candidates for a SIM need its constraints besides (`Mvno.Meets`).

Results:
* `Registry.listing_subscriptionRows`: the rows of the subscription.
* `Registry.simApnList_lists`: the candidates for the SIM.
* `Registry.apnSet_lists`: the set of the preferred row, along a run.
-/

namespace ApnRegistry

namespace Selection

open Table

variable {sub : Subscription} {operator : String} {o : Option Profile} {p : Profile} {sim : Sim}
  {t : Table} {found : List Profile}

/-- The row is a visible one of the ordinary table that carries the subscription, or the mark of unpinned
rows and the operator. -/
structure OfView (sub : Subscription) (operator : Option String) (p : Profile) : Prop where
  ordinary : p.owner = .others
  visible : p.isVisible = true
  carries : p.subscription = sub ∨ p.subscription = .unpinned ∧ operator = some p.numeric

/-- The row is a visible one of the ordinary table and of the operator, and it carries the subscription or
the mark of unpinned rows. -/
structure Candidate (sub : Subscription) (operator : String) (p : Profile) : Prop where
  ordinary : p.owner = .others
  visible : p.isVisible = true
  numeric : p.numeric = operator
  carries : p.subscription = sub ∨ p.subscription = .unpinned

/-- The candidates are the rows of the view that are of its operator. -/
theorem candidate_iff : Candidate sub operator p ↔
    OfView sub (some operator) p ∧ p.numeric = operator := by
  constructor
  · rintro ⟨ho, hvis, rfl, hcarries⟩
    exact ⟨⟨ho, hvis, hcarries.imp_right fun h => ⟨h, rfl⟩⟩, rfl⟩
  · rintro ⟨⟨ho, hvis, hcarries⟩, rfl⟩
    exact ⟨ho, hvis, rfl, hcarries.imp_right And.left⟩

theorem hasMvno_eq_false : p.hasMvno = false ↔ p.mvnoKind = .none := by
  rw [Profile.hasMvno, bne_eq_false_iff_eq]

/-! ## The set of the preferred row -/

theorem listing_apnSet {operator : Option String}
    (hfound : t.Listing (OfView sub operator) .idAscending found) :
    t.Listing (fun p => OfView sub operator p ∧ ∀ chosen, o = some chosen →
      p.apnSetId = chosen.apnSetId) .idAscending (apnSet found o) := by
  cases o with
  | none => exact hfound.congr fun p => by simp
  | some chosen => exact (hfound.filter _).congr fun p => by simp

/-! ## The candidates for a SIM -/

/-- The candidates whose constraint the SIM meets. -/
def met (operator : String) (sim : Sim) (found : List Profile) : List Profile :=
  ((found.filter (·.numeric == operator)).filter Profile.hasMvno).filter (Mvno.isMet · sim)

/-- The candidates without constraint. -/
def general (operator : String) (found : List Profile) : List Profile :=
  (found.filter (·.numeric == operator)).filter fun p => !p.hasMvno

/-- The candidates that have no constraint are taken if there are no better ones. -/
theorem forSim_of_operator (hop : sim.operator = some operator) :
    forSim found sim = if met operator sim found = [] then general operator found
      else met operator sim found := by
  simp only [forSim, hop, List.partition_eq_filter_filter, List.isEmpty_iff]
  rfl

variable (hfound : t.Listing (OfView sub (some operator)) .idAscending found)
include hfound

theorem listing_candidates :
    t.Listing (Candidate sub operator) .idAscending (found.filter (·.numeric == operator)) :=
  (hfound.filter _).congr fun p => by rw [candidate_iff, beq_iff_eq]

theorem listing_met : t.Listing (fun p => Candidate sub operator p ∧ Mvno.Meets p sim) .idAscending
    (met operator sim found) := by
  refine (((listing_candidates hfound).filter _).filter _).congr fun p => ?_
  rw [Mvno.isMet_iff, and_assoc]
  exact and_congr_right fun _ => and_iff_right_of_imp Mvno.Meets.hasMvno

theorem listing_general :
    t.Listing (fun p => Candidate sub operator p ∧ p.mvnoKind = .none) .idAscending
      (general operator found) :=
  ((listing_candidates hfound).filter _).congr fun p => by
    rw [Bool.not_eq_true', hasMvno_eq_false]

/-- **The candidates for a SIM**: those whose constraint it meets, if there are any, and otherwise those
without constraint. -/
theorem listing_forSim (hop : sim.operator = some operator) :
    ((∃ p ∈ t.rows.profiles, Candidate sub operator p ∧ Mvno.Meets p sim) ∧
        t.Listing (fun p => Candidate sub operator p ∧ Mvno.Meets p sim) .idAscending
          (forSim found sim)) ∨
      ((∀ p ∈ t.rows.profiles, Candidate sub operator p → ¬Mvno.Meets p sim) ∧
        t.Listing (fun p => Candidate sub operator p ∧ p.mvnoKind = .none) .idAscending
          (forSim found sim)) := by
  have hmet : t.Listing (fun p => Candidate sub operator p ∧ Mvno.Meets p sim) .idAscending
      (met operator sim found) := listing_met hfound
  rw [forSim_of_operator hop]
  split
  · rename_i hnone
    refine Or.inr ⟨fun p hp hc hm => ?_, listing_general hfound⟩
    exact List.not_mem_nil (hnone ▸ (hmet.mem_iff p).mpr ⟨hp, hc, hm⟩)
  · rename_i hsome
    obtain ⟨p, hp⟩ := List.exists_mem_of_ne_nil _ hsome
    exact Or.inl ⟨⟨p, (hmet.mem_iff p).mp hp⟩, hmet⟩

end Selection

namespace Registry

open Table Selection

variable {setup : Setup} {caller : Caller} {sub : Subscription} {s s' : State Table}
  {found : List Profile}

/-- **The rows of a subscription** are read in the table that the call leaves. -/
theorem listing_subscriptionRows (hv : s.store.Valid)
    (h : (subscriptionRows setup caller sub).perform s = (.ok found, s')) :
    s'.store.Listing (OfView sub (setup.device.operator sub)) .idAscending found := by
  obtain ⟨partition, ho, ha⟩ := partitionFor_query_general setup caller (some sub) s.enforced
  rw [subscriptionRows, perform_query ha, Action.perform_map] at h
  rcases hcur : (currentRows setup partition .idAscending).perform s with ⟨e | stored, s₁⟩
  · rw [hcur] at h
    cases h
  · rw [hcur] at h
    cases h
    obtain ⟨hstored, hmoves, -, hmodern⟩ := store_of_perform_currentRows hv hcur
    refine (listing_answer (hmoves.valid hv) hstored hmodern).congr fun p => ?_
    have htarget : (targetPredicate setup (.table .general (some sub))).holds p =
        (ofSubscription sub (setup.device.operator sub)).holds p := rfl
    rw [Sought, ho, htarget, Predicate.holds_always, and_iff_left rfl, holds_ofSubscription]
    exact ⟨fun h => ⟨h.1, h.2.1, h.2.2⟩, fun h => ⟨h.ordinary, h.visible, h.carries⟩⟩

theorem perform_simApnList (setup : Setup) (caller : Caller) (sub : Subscription) (s : State Table) :
    (simApnList setup caller sub).perform s =
      ((((subscriptionRows setup caller sub).perform s).1 >>= candidates setup sub),
        ((subscriptionRows setup caller sub).perform s).2) := by
  rw [simApnList_eq, Action.perform_bind]
  rcases (subscriptionRows setup caller sub).perform s with ⟨e | found, s'⟩ <;> rfl

theorem eq_forSim_of_candidates {result : List Profile}
    (h : candidates setup sub found = .ok result) :
    result = forSim found (setup.device.sim sub) := by
  unfold candidates at h
  split at h <;> cases h
  rfl

/-- **The candidates for a SIM**: if the call succeeds, it lists rows of the table that it leaves, by id.
These are the visible ordinary rows of the SIM's operator, pinned to the subscription or unpinned, whose
constraint the SIM meets. If it meets none, they are those without constraint. Rows of the two kinds are
never listed together, and nothing is listed for a SIM whose operator is unknown. -/
theorem simApnList_lists (setup : Setup) (caller : Caller) (sub : Subscription) (s s' : State Table)
    (result : List Profile) (hv : s.store.Valid)
    (h : (simApnList setup caller sub).perform s = (.ok result, s')) :
    let sim := setup.device.sim sub
    let t := s'.store
    (sim.operator = none → result = []) ∧
    ∀ operator, sim.operator = some operator →
      ((∃ p ∈ t.rows.profiles, Candidate sub operator p ∧ Mvno.Meets p sim) →
        t.Listing (fun p => Candidate sub operator p ∧ Mvno.Meets p sim) .idAscending result) ∧
      (¬(∃ p ∈ t.rows.profiles, Candidate sub operator p ∧ Mvno.Meets p sim) →
        t.Listing (fun p => Candidate sub operator p ∧ p.mvnoKind = .none) .idAscending result) ∧
      ∀ p ∈ result, ∀ q ∈ result, p.hasMvno = q.hasMvno := by
  intro sim t
  rw [perform_simApnList] at h
  obtain ⟨hresult, rfl⟩ := Prod.mk.inj h
  rcases hrows : (subscriptionRows setup caller sub).perform s with ⟨e | found, s'⟩
  · rw [hrows] at hresult
    cases hresult
  rw [hrows] at hresult
  have hview := listing_subscriptionRows hv hrows
  obtain rfl := eq_forSim_of_candidates hresult
  refine ⟨fun hnone => ?_, fun operator hop => ?_⟩
  · simp only [forSim, show (setup.device.sim sub).operator = none from hnone]
  · rw [show setup.device.operator sub = some operator from hop] at hview
    simp only [t, hrows]
    rcases listing_forSim hview hop with ⟨hsome, hlist⟩ | ⟨hnone, hlist⟩
    · refine ⟨fun _ => hlist, fun h => absurd hsome h, fun p hp q hq => ?_⟩
      rw [((hlist.mem_iff p).mp hp).2.2.hasMvno, ((hlist.mem_iff q).mp hq).2.2.hasMvno]
    · refine ⟨?_, fun _ => hlist, fun p hp q hq => ?_⟩
      · rintro ⟨p, hp, hc, hm⟩
        exact absurd hm (hnone p hp hc)
      · rw [hasMvno_eq_false.mpr ((hlist.mem_iff p).mp hp).2.2,
          hasMvno_eq_false.mpr ((hlist.mem_iff q).mp hq).2.2]

/-- A SIM with a service provider and one without, of the same operator. -/
def guestSims : Setup :=
  { device := { known := ["26201"]
                sims := [(0, { operator := some "26201", spn := some "Guest" }),
                  (1, { operator := some "26201" })] } }

/-- A row for every SIM of that operator. -/
def webRow : Profile := { apn := "web", numeric := "26201", mcc := "262", mnc := "01" }

/-- A row for the SIMs of the service provider. -/
def guestRow : Profile := { webRow with apn := "guest", mvnoKind := .spn, mvnoData := "Guest" }

/-- Rows for the service provider, with integer codes, for every SIM, pinned, and for another operator. -/
def guestStart : State Table := .initial guestSims (.ofProfiles [guestRow,
  { webRow with mcc := "", mnc := "", legacyMcc := some 262, legacyMnc := some 1 },
  { webRow with apn := "mms" }, { guestRow with subscription := ⟨0⟩ }, { webRow with numeric := "31026" }])

/-- The SIM of the service provider has the two rows for it, the other SIM has those without constraint. -/
theorem simApnList_lists_guest :
    let narrow := [{ guestRow with id := some ⟨1⟩ }, { guestRow with id := some ⟨4⟩, subscription := ⟨0⟩ }]
    let general := [{ webRow with id := some ⟨2⟩, legacyMcc := some 262, legacyMnc := some 1 },
      { webRow with id := some ⟨3⟩, apn := "mms" }]
    ∃ s₁ s₂, (simApnList guestSims .phone ⟨0⟩).perform guestStart = (.ok narrow, s₁) ∧
      s₁.store.Listing (fun p => Candidate ⟨0⟩ "26201" p ∧
        Mvno.Meets p (guestSims.device.sim ⟨0⟩)) .idAscending narrow ∧
      (simApnList guestSims .phone ⟨1⟩).perform guestStart = (.ok general, s₂) ∧
      s₂.store.Listing (fun p => Candidate ⟨1⟩ "26201" p ∧ p.mvnoKind = .none)
        .idAscending general := by
  intro narrow general
  have hv : guestStart.store.Valid := .ofProfiles _
  have hnarrow : ((simApnList guestSims .phone ⟨0⟩).perform guestStart).1 = .ok narrow := by
    decide +kernel
  have hgeneral : ((simApnList guestSims .phone ⟨1⟩).perform guestStart).1 = .ok general := by
    decide +kernel
  have hguest : { guestRow with id := some ⟨1⟩ } ∈
      ((simApnList guestSims .phone ⟨0⟩).perform guestStart).2.store.rows.profiles := by
    decide +kernel
  generalize hs₁ : ((simApnList guestSims .phone ⟨0⟩).perform guestStart).2 = s₁ at hguest
  generalize hs₂ : ((simApnList guestSims .phone ⟨1⟩).perform guestStart).2 = s₂
  have h₁ : (simApnList guestSims .phone ⟨0⟩).perform guestStart = (.ok narrow, s₁) :=
    Prod.ext hnarrow hs₁
  have h₂ : (simApnList guestSims .phone ⟨1⟩).perform guestStart = (.ok general, s₂) :=
    Prod.ext hgeneral hs₂
  have hall₁ := (simApnList_lists guestSims .phone ⟨0⟩ guestStart s₁ narrow hv h₁).2 "26201" rfl
  have hall₂ := (simApnList_lists guestSims .phone ⟨1⟩ guestStart s₂ general hv h₂).2 "26201" rfl
  refine ⟨s₁, s₂, h₁, hall₁.1 ⟨_, hguest, ⟨rfl, rfl, rfl, Or.inr rfl⟩, ?_⟩, h₂, hall₂.2.1 ?_⟩
  · exact .spn rfl (by decide) rfl
  · -- Nothing but the operator is known of the other SIM.
    rintro ⟨p, -, -, hmeets⟩
    cases hmeets with
    | spn _ _ same => cases same
    | imsi _ _ known _ => cases known
    | gid _ _ known _ _ => cases known
    | iccid _ _ known _ => cases known

/-! ## The set of the preferred row -/

theorem perform_apnSet (setup : Setup) (caller : Caller) (sub : Subscription) (s : State Table) :
    (apnSet setup caller sub).perform s =
      let (result, s') := (subscriptionRows setup caller sub).perform s
      (result.map fun found =>
        Selection.apnSet found ((s'.preferences.get? sub).bind s'.store.preferable), s') := by
  rw [apnSet, Action.perform_bind]
  rcases (subscriptionRows setup caller sub).perform s with ⟨e | found, s'⟩
  · rfl
  · dsimp only
    rw [Action.perform_bind, perform_preferred_eq_ok]
    rfl

theorem mem_profiles_of_preferable {t : Table} {id : RowId} {p : Profile}
    (h : t.preferable id = some p) :
    p ∈ t.rows.profiles ∧ p.isVisible = true ∧ p.owner = .others := by
  obtain ⟨hg, hp⟩ := Option.filter_eq_some_iff.mp h
  rw [Selection.isPreferable, Bool.and_eq_true, beq_iff_eq] at hp
  exact ⟨List.mem_map_of_mem (Rows.mem_of_get? hg), hp⟩

/-- **The set of the preferred row**: along every run, a call that succeeds lists rows of the table that it
leaves, by id. These are the visible ordinary rows that carry the subscription, or the mark of unpinned
rows and the operator of its SIM. If a row is preferred right after the call, they are those in its set.
Such a row is among them iff it is one of the subscription. Nothing is preferred if the row that was set
is gone, or has become one that cannot be preferred, by the end of the call. -/
theorem apnSet_lists (setup : Setup) (t : Table) (requests : List Request) (caller : Caller)
    (sub : Subscription) (s' : State Table) (result : List Profile) (ht : t.Valid)
    (h : (apnSet setup caller sub).perform (run setup requests (.initial setup t)) =
      (.ok result, s')) :
    let start : State Table := .initial setup t
    let s := run setup requests start
    let operator := setup.device.operator sub
    ∃ o, (∀ asker, (preferred setup asker sub).perform s' = (.ok o, s')) ∧
      s'.store.Listing (fun p => OfView sub operator p ∧
        ∀ chosen, o = some chosen → p.apnSetId = chosen.apnSetId) .idAscending result ∧
      (∀ chosen, o = some chosen → (chosen ∈ result ↔
        chosen.subscription = sub ∨ chosen.subscription = .unpinned ∧ operator = some chosen.numeric)) ∧
      ∀ id, Pointer setup sub start requests id →
        s.store.get? id = none ∨ s'.store.preferable id = none →
        o = none ∧ s'.store.Listing (OfView sub operator) .idAscending result := by
  intro start s operator
  have hv : s.store.Valid := valid_run setup requests ht
  have hgone {id : RowId} (hid : id.val < s.store.nextId) (hg : s.store.get? id = none) :
      s'.store.get? id = none := by
    have hafter := (gone_after (.apnSet caller sub) setup hv hid hg).2
    rw [Request.after, Request.action, Action.perform_map, h] at hafter
    exact hafter
  rw [perform_apnSet] at h
  rcases hrows : (subscriptionRows setup caller sub).perform s with ⟨e | found, s₁⟩
  · rw [hrows] at h
    cases h
  rw [hrows] at h
  cases h
  have hview := listing_subscriptionRows hv hrows
  have hpointers : s'.preferences = s.preferences := by
    have hleft : (subscriptionRows setup caller sub).Leaves State.preferences := pointersLeft.rel_query
    rw [← hleft s, hrows]
  have hlist := listing_apnSet (o := (s'.preferences.get? sub).bind s'.store.preferable) hview
  refine ⟨_, fun asker => perform_preferred_eq_ok setup asker sub s', hlist, ?_, ?_⟩
  · intro chosen hchosen
    obtain ⟨id, -, hpref⟩ := Option.bind_eq_some_iff.mp hchosen
    obtain ⟨hmem, hvis, ho⟩ := mem_profiles_of_preferable hpref
    rw [hlist.mem_iff, and_iff_right hmem]
    constructor
    · rintro ⟨hof, -⟩
      exact hof.carries
    · intro hcarries
      exact ⟨⟨ho, hvis, hcarries⟩, fun other hother => by rw [Option.some.inj (hchosen.symm.trans hother)]⟩
  · -- A row that is gone before the call does not come back by it.
    intro id hid hlost
    have hnone : s'.store.preferable id = none := by
      rcases hlost with hg | hnone
      · rw [Table.preferable, hgone (hid.lt_nextId ht) hg]
        rfl
      · exact hnone
    have hpointer : s.preferences.get? sub = some id :=
      (preferences_run_iff_pointer setup sub ht rfl requests).mpr hid
    have ho : (s'.preferences.get? sub).bind s'.store.preferable = none := by
      rw [hpointers, hpointer, Option.bind_some, hnone]
    rw [ho]
    exact ⟨rfl, hview⟩

/-- A row of another set is inserted beside the two for every SIM, and one of these becomes preferred. -/
def preferringWeb : List Request :=
  [.bulkInsert .system (.table .general none) [{ webRow with apnSetId := 1, status := .userEdited },
      { webRow with apn := "mms", apnSetId := 1 }, { webRow with apn := "ims" }],
    .setPreferred .system ⟨0⟩ ⟨1⟩]

/-- After that the preferred row is deleted. -/
def deletingWeb : List Request := preferringWeb ++ [.delete .system (.row .general ⟨1⟩) .always]

/-- The set of the preferred row has two rows. Once that row is deleted, all that are left are shown. -/
theorem apnSet_lists_web :
    let start : State Table := .initial guestSims {}
    let web : Profile := { webRow with id := some ⟨1⟩, apnSetId := 1, status := .userEdited }
    let mms : Profile := { webRow with id := some ⟨2⟩, apn := "mms", apnSetId := 1 }
    let ims : Profile := { webRow with id := some ⟨3⟩, apn := "ims" }
    ∃ s₁ s₂, (apnSet guestSims .phone ⟨0⟩).perform (run guestSims preferringWeb start) =
        (.ok [web, mms], s₁) ∧
      (preferred guestSims .phone ⟨0⟩).perform s₁ = (.ok (some web), s₁) ∧
      s₁.store.Listing (fun p => OfView ⟨0⟩ (some "26201") p ∧ p.apnSetId = 1) .idAscending [web, mms] ∧
      (apnSet guestSims .phone ⟨0⟩).perform (run guestSims deletingWeb start) = (.ok [mms, ims], s₂) ∧
      Pointer guestSims ⟨0⟩ start deletingWeb ⟨1⟩ ∧
      s₂.store.Listing (OfView ⟨0⟩ (some "26201")) .idAscending [mms, ims] := by
  intro start web mms ims
  have hset : ((apnSet guestSims .phone ⟨0⟩).perform (run guestSims preferringWeb start)).1 =
      .ok [web, mms] := by
    decide +kernel
  have hpref : ((preferred guestSims .phone ⟨0⟩).perform
      ((apnSet guestSims .phone ⟨0⟩).perform (run guestSims preferringWeb start)).2).1 =
      .ok (some web) := by
    decide +kernel
  have hrest : ((apnSet guestSims .phone ⟨0⟩).perform (run guestSims deletingWeb start)).1 =
      .ok [mms, ims] := by
    decide +kernel
  have hok : (Request.setPreferred .system ⟨0⟩ ⟨1⟩).Succeeds guestSims
      (run guestSims (preferringWeb.take 1) start) := ⟨.done, by decide +kernel⟩
  have hpointer : Pointer guestSims ⟨0⟩ start deletingWeb ⟨1⟩ := .keep (.set hok) fun h => h.2
  have hgone : (run guestSims deletingWeb start).store.get? ⟨1⟩ = none := by
    decide +kernel
  generalize hs₁ : ((apnSet guestSims .phone ⟨0⟩).perform (run guestSims preferringWeb start)).2 = s₁
    at hpref
  generalize hs₂ : ((apnSet guestSims .phone ⟨0⟩).perform (run guestSims deletingWeb start)).2 = s₂
  have h₁ : (apnSet guestSims .phone ⟨0⟩).perform (run guestSims preferringWeb start) =
      (.ok [web, mms], s₁) := Prod.ext hset hs₁
  have h₂ : (apnSet guestSims .phone ⟨0⟩).perform (run guestSims deletingWeb start) =
      (.ok [mms, ims], s₂) := Prod.ext hrest hs₂
  obtain ⟨o, ho, hlist, -⟩ :=
    apnSet_lists guestSims {} preferringWeb .phone ⟨0⟩ s₁ [web, mms] .empty h₁
  obtain ⟨_, -, -, -, hdangling⟩ :=
    apnSet_lists guestSims {} deletingWeb .phone ⟨0⟩ s₂ [mms, ims] .empty h₂
  obtain rfl : o = some web := by
    have := ho .phone
    rw [this] at hpref
    exact Except.ok.inj hpref
  refine ⟨s₁, s₂, h₁, ho .phone, hlist.congr fun p => ?_, h₂, hpointer,
    (hdangling ⟨1⟩ hpointer (Or.inl hgone)).2⟩
  exact and_congr_right fun _ => ⟨fun h => h web rfl, fun h chosen hchosen => by
    rw [h, ← Option.some.inj hchosen]⟩

end Registry

end ApnRegistry
