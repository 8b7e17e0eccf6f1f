import ApnRegistry.Proofs.LegacyCodes
import ApnRegistry.Proofs.Unions

/-!
# What a decision about a collision keeps

Another row with the key of a profile is its *rival* (`Rivals`). A profile without rivals is stored as it
is. If there is one rival, the profile lands on it, be it a new one or an updated row: the row that results
has the key of both and the id of the rival, it is unedited only if both were, it is for all services that
either is for, and if only the rival has recorded intent, all other fields are the rival's (`Landed`). This is
true of all three ways to put the two rows together.

Results:
* `landed_mergeOnto`, `landed_updateOnto`: what is left when a profile lands on a row.
* `resolve_fails`, `resolveUpdate_fails_of_others`, `resolveUpdate_fails_of_dpc`: which decisions fail.
* `decisions_keep`: every decision about a new profile and about an updated row.
-/

namespace ApnRegistry

theorem EditStatus.isUnedited_iff {status : EditStatus} : status.isUnedited = true ↔ status = .unedited := by
  cases status <;> decide

namespace Collision

open EditStatus ServiceTypes

variable {p row moved current : Profile} {rows : List Profile} {changes : Update} {r : Resolution}

/-! ## Rivals -/

/-- The row is not the profile itself and has its key. A profile without id is none of the rows. -/
def Rivals (p row : Profile) : Prop := (p.id = none ∨ row.id ≠ p.id) ∧ row.key = p.key

/-- Two of the rows are rivals of the profile. -/
def Contested (p : Profile) (rows : List Profile) : Prop :=
  ∃ first second, [first, second].Sublist rows ∧ Rivals p first ∧ Rivals p second

theorem mem_hits_iff_rivals : row ∈ hits p rows ↔ row ∈ rows ∧ Rivals p row := mem_hits

theorem rivals_of_mem_hits (h : row ∈ hits p rows) : Rivals p row := (mem_hits_iff_rivals.mp h).2

theorem hits_eq_nil_iff : hits p rows = [] ↔ ∀ row ∈ rows, ¬Rivals p row := by
  simp only [List.eq_nil_iff_forall_not_mem, mem_hits_iff_rivals, not_and]

theorem contested_iff : Contested p rows ↔ 2 ≤ (hits p rows).length := by
  constructor
  · rintro ⟨first, second, hsub, hfirst, hsecond⟩
    -- the hits are the rivals among the rows, in order, so that both rivals are among the hits
    have hpair : hits p [first, second] = [first, second] := by
      refine List.filter_eq_self.mpr fun row hm => ?_
      have hrow : Rivals p row := by
        rcases List.mem_pair.mp hm with rfl | rfl
        · exact hfirst
        · exact hsecond
      exact (List.mem_filter.mp (mem_hits_iff_rivals.mpr ⟨hm, hrow⟩)).2
    have hhits : (hits p [first, second]).Sublist (hits p rows) := hsub.filter _
    rw [hpair] at hhits
    exact hhits.length_le
  · intro h
    match hh : hits p rows, h with
    | first :: second :: more, _ =>
      have hrival (row : Profile) (hm : row ∈ [first, second]) : Rivals p row := by
        have hhit : row ∈ hits p rows := hh ▸ List.mem_append_left more hm
        exact rivals_of_mem_hits hhit
      have hsub : (first :: second :: more).Sublist rows := hh ▸ List.filter_sublist
      exact ⟨first, second, (List.sublist_append_left [first, second] more).trans hsub,
        hrival first List.mem_cons_self, hrival second (List.mem_cons_of_mem first List.mem_cons_self)⟩

/-! ## What is left of two rows -/

/-- What is left when the profile has landed on the row. -/
structure Landed (row incoming stored : Profile) : Prop where
  id : stored.id = row.id
  unedited : stored.status = .unedited → row.status = .unedited ∧ incoming.status = .unedited
  /-- Each type of either is named, ASCII case aside, unless `*` stands for all of them. -/
  types : stored.apnTypes ≠ "*" → ∀ type ∈ tokens row.apnTypes ++ tokens incoming.apnTypes,
    Repeated (tokens stored.apnTypes) type
  /-- An unedited profile changes the name and the types only of a row with recorded intent. -/
  intent : row.status ≠ .unedited → incoming.status = .unedited →
    stored = { row with name := stored.name, apnTypes := stored.apnTypes }

/-- A union names what it was made of. -/
theorem repeated_union {a b : String} {type : List Char} (hstar : union a b ≠ "*")
    (h : type ∈ tokens a ++ tokens b) : Repeated (tokens (union a b)) type := by
  refine repeated_tokens_union (fun hw => hstar ?_) h
  rw [union_eq_wildcard_iff, ← List.mem_append]
  exact wildcard_mem_tokens_union.mp hw

theorem isUnedited_precedence (stored incoming : EditStatus) :
    (precedence stored incoming).isUnedited = (stored.isUnedited && incoming.isUnedited) := by
  unfold precedence
  cases hs : incoming.isUnedited with
  | true => rw [if_pos rfl, Bool.and_true]
  | false => rw [if_neg Bool.false_ne_true, hs, Bool.and_false]

theorem landed_mergeOnto (row p : Profile) : Landed row p (mergeOnto row p).1 where
  id := id_mergeOnto row p
  unedited := by
    rw [← isUnedited_iff, isUnedited_mergeOnto, Bool.and_eq_true, isUnedited_iff, isUnedited_iff]
    exact id
  types := by
    rw [apnTypes_mergeOnto]
    exact fun hstar _ h => repeated_union hstar h
  intent := fun hrow hp => by rw [mergeOnto_of_intent hrow hp]

theorem landed_updateOnto (row moved : Profile) (changes : Update) :
    Landed row moved (updateOnto row moved changes).1 := by
  unfold updateOnto
  split
  · exact landed_mergeOnto row moved
  · rename_i hintent
    exact {
      id := rfl
      unedited := fun h => by
        have hboth := isUnedited_iff.mpr h
        rwa [isUnedited_precedence, Bool.and_eq_true, isUnedited_iff, isUnedited_iff] at hboth
      types := fun hstar _ h => repeated_union hstar h
      intent := fun hrow hmoved => by
        rw [EditStatus.isUnedited_eq_false.mpr hrow, isUnedited_iff.mpr hmoved] at hintent
        exact absurd rfl hintent }

/-! ## Decisions -/

/-- What a decision about the profile keeps. -/
structure Resolved (p : Profile) (rows : List Profile) (r : Resolution) : Prop where
  key : r.stored.key = p.key
  landed : ∀ row ∈ rows, Rivals p row → Landed row p r.stored
  alone : (∀ row ∈ rows, ¬Rivals p row) → r.stored = p

theorem Resolved.of_nil (h : hits p rows = []) (hr : r.stored = p) : Resolved p rows r where
  key := congrArg Profile.key hr
  landed := fun row hm hrow => absurd hrow (hits_eq_nil_iff.mp h row hm)
  alone := fun _ => hr

theorem Resolved.of_hit (h : hits p rows = [row]) (hkey : row.key = p.key → r.stored.key = row.key)
    (hl : Landed row p r.stored) : Resolved p rows r := by
  have hhit : row ∈ hits p rows := h ▸ List.mem_singleton_self row
  have hrow := rivals_of_mem_hits hhit
  refine ⟨(hkey hrow.2).trans hrow.2, fun other hm hother => ?_, fun hnone => ?_⟩
  · have hhit := mem_hits_iff_rivals.mpr ⟨hm, hother⟩
    rw [h, List.mem_singleton] at hhit
    exact hhit ▸ hl
  · rw [hits_eq_nil_iff.mpr hnone] at h
    cases h

theorem resolved_of_resolve (h : resolve p rows = .ok r) : Resolved p rows r := by
  cases hh : hits p rows with
  | nil =>
    rw [resolve_of_nil hh] at h
    cases h
    exact .of_nil hh rfl
  | cons row more =>
    cases more with
    | nil =>
      rw [resolve_of_singleton hh] at h
      cases h
      exact .of_hit hh key_mergeOnto (landed_mergeOnto row p)
    | cons second more =>
      rw [resolve_of_many hh] at h
      cases h

theorem resolved_of_resolveUpdate (h : resolveUpdate current changes rows = .ok r) :
    Resolved (changes.applied current) rows r := by
  by_cases hh : hits (changes.applied current) rows = []
  · rw [resolveUpdate_of_nil hh] at h
    cases h
    exact .of_nil hh rfl
  · cases ho : current.owner with
    | dpc =>
      obtain ⟨e, he, -⟩ := resolveUpdate_of_dpc ho hh
      rw [he] at h
      cases h
    | others =>
      match hh' : hits (changes.applied current) rows, hh with
      | [row], _ =>
        rw [resolveUpdate_of_hit ho hh'] at h
        cases h
        exact .of_hit hh' key_updateOnto (landed_updateOnto row _ changes)
      | row :: second :: more, _ =>
        rw [resolveUpdate_of_many ho hh'] at h
        cases h

/-! ## Failures -/

/-- The decision fails iff the condition is met, and then with an error of the kind. -/
structure FailsIff (decision : Except Error Resolution) (condition : Prop) (kind : Error.Kind) : Prop where
  fails : (∃ e, decision = .error e) ↔ condition
  kind : ∀ e, decision = .error e → e.kind = kind

theorem FailsIff.of_ok {condition : Prop} {kind : Error.Kind} {decision : Except Error Resolution}
    (h : decision = .ok r) (hc : ¬condition) : FailsIff decision condition kind where
  fails := iff_of_false (fun ⟨_, he⟩ => nomatch h.symm.trans he) hc
  kind := fun _ he => nomatch h.symm.trans he

theorem FailsIff.of_error {condition : Prop} {e : Error} {decision : Except Error Resolution}
    (h : decision = .error e) (hc : condition) : FailsIff decision condition e.kind where
  fails := iff_of_true ⟨e, h⟩ hc
  kind := fun e' he' => by rw [Except.error.inj (h.symm.trans he')]

/-- **A new profile** is refused iff two rows are its rivals. -/
theorem resolve_fails (p : Profile) (rows : List Profile) :
    FailsIff (resolve p rows) (Contested p rows) .integrity := by
  rw [contested_iff]
  match hh : hits p rows with
  | [] => exact .of_ok (resolve_of_nil hh) (by decide)
  | [row] => exact .of_ok (resolve_of_singleton hh) (Nat.lt_irrefl 1)
  | row :: second :: more =>
    exact .of_error (resolve_of_many hh) (Nat.le_add_left 2 more.length)

/-- **An update of an ordinary row** is refused iff two rows are rivals of the updated one. -/
theorem resolveUpdate_fails_of_others (ho : current.owner = .others) (changes : Update)
    (rows : List Profile) :
    FailsIff (resolveUpdate current changes rows) (Contested (changes.applied current) rows)
      .integrity := by
  rw [contested_iff]
  match hh : hits (changes.applied current) rows with
  | [] => exact .of_ok (resolveUpdate_of_nil hh) (by decide)
  | [row] => exact .of_ok (resolveUpdate_of_hit ho hh) (Nat.lt_irrefl 1)
  | row :: second :: more =>
    exact .of_error (resolveUpdate_of_many ho hh) (Nat.le_add_left 2 more.length)

/-- **An update of a policy row** is refused as soon as one row is a rival of the updated one. -/
theorem resolveUpdate_fails_of_dpc (ho : current.owner = .dpc) (changes : Update) (rows : List Profile) :
    FailsIff (resolveUpdate current changes rows)
      (∃ row ∈ rows, Rivals (changes.applied current) row) .conflict := by
  by_cases hh : hits (changes.applied current) rows = []
  · exact .of_ok (resolveUpdate_of_nil hh) fun ⟨row, hm, hrow⟩ => hits_eq_nil_iff.mp hh row hm hrow
  · obtain ⟨e, he, hkind⟩ := resolveUpdate_of_dpc ho hh
    rw [← hkind]
    refine .of_error he ?_
    by_contra hnone
    exact hh (hits_eq_nil_iff.mpr fun row hm hrow => hnone ⟨row, hm, hrow⟩)

/-- **What every decision keeps**, and which decisions there are. A new profile and an updated row are stored
under the key that they have, and one rival keeps its id and its recorded intent. Two rivals of an ordinary
row cannot be told apart, which is an error, and a policy row may not have a rival at all. -/
theorem decisions_keep (p current : Profile) (changes : Update) (rows : List Profile) :
    (∀ r, resolve p rows = .ok r → Resolved p rows r) ∧
    (∀ r, resolveUpdate current changes rows = .ok r → Resolved (changes.applied current) rows r) ∧
    FailsIff (resolve p rows) (Contested p rows) .integrity ∧
    (current.owner = .others → FailsIff (resolveUpdate current changes rows)
      (Contested (changes.applied current) rows) .integrity) ∧
    (current.owner = .dpc → FailsIff (resolveUpdate current changes rows)
      (∃ row ∈ rows, Rivals (changes.applied current) row) .conflict) :=
  ⟨fun _ => resolved_of_resolve, fun _ => resolved_of_resolveUpdate, resolve_fails p rows,
    fun ho => resolveUpdate_fails_of_others ho changes rows,
    fun ho => resolveUpdate_fails_of_dpc ho changes rows⟩

/-- An edited row is the rival of an updated one that is unedited: it keeps its user and gets the other name.
The update is refused if the edited row is stored twice, and among policy rows it is refused at once. -/
theorem decisions_keep_user :
    let current : Profile := { id := some ⟨1⟩, apn := "web", name := "New", apnTypes := "MMS, supl" }
    let row : Profile :=
      { id := some ⟨2⟩, apn := "mms", user := "alice", apnTypes := "mms", status := .userEdited }
    let changes : Update := { apn := some "mms", user := some "factory" }
    let policy (p : Profile) : Profile := { p with owner := .dpc }
    (∃ r, resolveUpdate current changes [current, row] = .ok r ∧
      r.stored = { row with name := "New", apnTypes := "mms,supl" } ∧
      Resolved (changes.applied current) [current, row] r) ∧
    (∃ e, resolveUpdate current changes [row, current, { row with id := some ⟨3⟩ }] = .error e ∧
      e.kind = .integrity) ∧
    ∃ e, resolveUpdate (policy current) changes [policy current, policy row] = .error e ∧
      e.kind = .conflict := by
  intro current row changes policy
  obtain ⟨-, hkeep, -, -, -⟩ := decisions_keep row current changes [current, row]
  obtain ⟨-, -, -, hothers, -⟩ :=
    decisions_keep row current changes [row, current, { row with id := some ⟨3⟩ }]
  obtain ⟨-, -, -, -, hdpc⟩ :=
    decisions_keep row (policy current) changes [policy current, policy row]
  have h : resolveUpdate current changes [current, row] =
      .ok ⟨{ row with name := "New", apnTypes := "mms,supl" }, [⟨1⟩], .preservedIntent⟩ := by decide
  refine ⟨⟨_, h, rfl, hkeep _ h⟩, ?_, ?_⟩
  · obtain ⟨e, he⟩ := (hothers rfl).fails.mpr ⟨row, { row with id := some ⟨3⟩ },
      .cons_cons row (.cons current (List.Sublist.refl _)), ⟨.inr (by decide), rfl⟩, ⟨.inr (by decide), rfl⟩⟩
    exact ⟨e, he, (hothers rfl).kind e he⟩
  · obtain ⟨e, he⟩ := (hdpc rfl).fails.mpr
      ⟨policy row, List.mem_cons_of_mem _ List.mem_cons_self, .inr (by decide), rfl⟩
    exact ⟨e, he, (hdpc rfl).kind e he⟩

end Collision

end ApnRegistry
