import ApnRegistry.Collision
import ApnRegistry.LegacyCodes
import ApnRegistry.Proofs.Assignments

/-!
# Keys and collisions

What the merge rules do to keys. A profile that lands on a row leaves a row with the same key; an
update that moves a row onto the key of another keeps the key of that other one, as it leaves a key
that it leads to as it is (`Update.key_applied_of_key_eq`). A decision about a profile depends on the
stored rows through its `hits` alone, and only rows of its own shard, owner and numeric can be among
them. What is true of every one of many decisions is true of all (`foldlM_induction`).
-/

namespace ApnRegistry

namespace Profile

variable {p q : Profile}

theorem owner_eq_of_key_eq (h : p.key = q.key) : p.owner = q.owner := congrArg Key.owner h

theorem numeric_eq_of_key_eq (h : p.key = q.key) : p.numeric = q.numeric := congrArg Key.numeric h

theorem subscription_eq_of_key_eq (h : p.key = q.key) : p.subscription = q.subscription :=
  congrArg Key.subscription h

theorem mvnoKind_eq_of_key_eq (h : p.key = q.key) : p.mvnoKind = q.mvnoKind := congrArg Key.mvnoKind h

theorem mvnoData_eq_of_key_eq (h : p.key = q.key) : p.mvnoData = q.mvnoData := congrArg Key.mvnoData h

@[simp] theorem key_withId (p : Profile) (id : Option RowId) : { p with id := id }.key = p.key := rfl

end Profile

namespace LegacyCodes

variable {known : List String} {p q : Profile}

/-- The modern form of a row is the row with other codes. -/
theorem eq_of_pending (h : pending known p = some q) :
    ∃ mcc mnc numeric, q = { p with mcc := mcc, mnc := mnc, numeric := numeric } := by
  unfold pending at h
  split at h
  · cases h
  · split at h
    · cases h
      exact ⟨_, _, _, rfl⟩
    · cases h

theorem id_of_pending (h : pending known p = some q) : q.id = p.id := by
  obtain ⟨mcc, mnc, numeric, rfl⟩ := eq_of_pending h
  rfl

theorem shard_of_pending (h : pending known p = some q) : q.shard = p.shard := by
  obtain ⟨mcc, mnc, numeric, rfl⟩ := eq_of_pending h
  rfl

theorem owner_of_pending (h : pending known p = some q) : q.owner = p.owner := by
  obtain ⟨mcc, mnc, numeric, rfl⟩ := eq_of_pending h
  rfl

theorem id_modernized (known : List String) (p : Profile) : (modernized known p).id = p.id := by
  unfold modernized
  cases h : pending known p with
  | none => rfl
  | some q => exact id_of_pending h

theorem owner_modernized (known : List String) (p : Profile) :
    (modernized known p).owner = p.owner := by
  unfold modernized
  cases h : pending known p with
  | none => rfl
  | some q => exact owner_of_pending h

end LegacyCodes

namespace Collision

variable {p q row : Profile} {rows rows' : List Profile} {changes : Update}

/-! ## What lands where -/

theorem mergeOnto_eq (row p : Profile) : (mergeOnto row p).1.id = row.id ∧
    (row.key = p.key → (mergeOnto row p).1.key = row.key) := by
  unfold mergeOnto
  simp only
  split
  · exact ⟨rfl, fun _ => rfl⟩
  · exact ⟨rfl, fun h => h.symm⟩

@[simp] theorem id_mergeOnto (row p : Profile) : (mergeOnto row p).1.id = row.id :=
  (mergeOnto_eq row p).1

/-- A profile that lands on a row with its key leaves a row with that key. -/
theorem key_mergeOnto (h : row.key = p.key) : (mergeOnto row p).1.key = row.key :=
  (mergeOnto_eq row p).2 h

theorem snd_mergeOnto (row p : Profile) :
    (mergeOnto row p).2 = .preservedIntent ∨ (mergeOnto row p).2 = .merged := by
  unfold mergeOnto
  simp only
  split
  · exact Or.inl rfl
  · exact Or.inr rfl

/-- A profile that lands on a row adds its service types. -/
theorem apnTypes_mergeOnto (row p : Profile) :
    (mergeOnto row p).1.apnTypes = ServiceTypes.union row.apnTypes p.apnTypes := by
  unfold mergeOnto
  simp only
  split
  · rfl
  · rfl

/-- Landing does not look at the id of the row. -/
theorem mergeOnto_withId (row p : Profile) (id : Option RowId) :
    mergeOnto { row with id := id } p =
      ({ (mergeOnto row p).1 with id := id }, (mergeOnto row p).2) := by
  unfold mergeOnto
  simp only
  split <;> rfl

@[simp] theorem id_updateOnto (row moved : Profile) (changes : Update) :
    (updateOnto row moved changes).1.id = row.id := by
  unfold updateOnto
  split
  · exact id_mergeOnto row moved
  · rfl

/-- A row that an update moves onto the key of another leaves the other one's key as it is. -/
theorem key_updateOnto (h : row.key = (changes.applied p).key) :
    (updateOnto row (changes.applied p) changes).1.key = row.key := by
  unfold updateOnto
  split
  · exact key_mergeOnto h
  · exact Update.key_applied_of_key_eq h.symm

/-! ## The rows that are hit -/

theorem mem_hits : q ∈ hits p rows ↔
    q ∈ rows ∧ (p.id = none ∨ q.id ≠ p.id) ∧ q.key = p.key := by
  rw [hits, List.mem_filter]
  simp

theorem hits_append (p : Profile) (rows more : List Profile) :
    hits p (rows ++ more) = hits p rows ++ hits p more :=
  List.filter_append rows more

/-- A profile without id hits the rows with its key. -/
theorem hits_of_id_none (h : p.id = none) (rows : List Profile) :
    hits p rows = rows.filter (·.key == p.key) := by
  simp [hits, h]

/-- No row has the key. -/
def isFree (rows : List Profile) (k : Profile.Key) : Bool := rows.all (·.key != k)

theorem isFree_eq_true {k : Profile.Key} : isFree rows k = true ↔ ∀ r ∈ rows, r.key ≠ k := by
  simp [isFree]

/-- A profile without id hits nothing iff its key is free. -/
theorem isFree_iff_hits (h : p.id = none) : isFree rows p.key = true ↔ hits p rows = [] := by
  rw [isFree_eq_true, hits_of_id_none h, List.filter_eq_nil_iff]
  exact forall₂_congr fun r _ => not_congr beq_iff_eq.symm

/-- Rows that cannot be hit may be left out. -/
theorem hits_filter {f : Profile → Bool} (h : ∀ q ∈ rows, q.key = p.key → f q = true) :
    hits p (rows.filter f) = hits p rows := by
  rw [hits, hits, List.filter_filter]
  refine List.filter_congr fun q hq => ?_
  by_cases hk : q.key = p.key
  · rw [h q hq hk, Bool.and_true]
  · simp [hk]

theorem resolve_congr (h : hits p rows = hits p rows') : resolve p rows = resolve p rows' := by
  rw [resolve, resolve, h]

theorem resolveDpc_congr (h : hits p rows = hits p rows') : resolveDpc p rows = resolveDpc p rows' := by
  rw [resolveDpc, resolveDpc, h]

theorem resolveUpdate_congr (h : hits (changes.applied p) rows = hits (changes.applied p) rows') :
    resolveUpdate p changes rows = resolveUpdate p changes rows' := by
  rw [resolveUpdate, resolveUpdate, h]

/-! ## Decisions -/

theorem resolve_of_nil (h : hits p rows = []) : resolve p rows = .ok ⟨p, [], .inserted⟩ := by
  rw [resolve, h]

theorem resolve_of_singleton (h : hits p rows = [row]) :
    resolve p rows = .ok ⟨(mergeOnto row p).1, [], (mergeOnto row p).2⟩ := by
  rw [resolve, h]

theorem resolve_of_many {row' : Profile} {more : List Profile}
    (h : hits p rows = row :: row' :: more) :
    resolve p rows = .error (ambiguous (more.length + 2) p) := by
  rw [resolve, h]
  rfl

theorem resolveDpc_of_nil (h : hits p rows = []) : resolveDpc p rows = .ok ⟨p, [], .inserted⟩ := by
  rw [resolveDpc, h]

theorem resolveDpc_of_ne_nil (h : hits p rows ≠ []) :
    resolveDpc p rows = .error (.dpcInsertCollides p.apn) := by
  cases hh : hits p rows with
  | nil => exact absurd hh h
  | cons row more => rw [resolveDpc, hh]

theorem resolveUpdate_of_nil (h : hits (changes.applied p) rows = []) :
    resolveUpdate p changes rows = .ok ⟨changes.applied p, [], .updated⟩ := by
  simp only [resolveUpdate, h]

theorem resolveUpdate_of_hit (ho : p.owner = .others) (h : hits (changes.applied p) rows = [row]) :
    resolveUpdate p changes rows =
      .ok ⟨(updateOnto row (changes.applied p) changes).1, p.id.toList,
        (updateOnto row (changes.applied p) changes).2⟩ := by
  simp only [resolveUpdate, h, ho]
  rfl

theorem resolveUpdate_of_singleton {id : RowId} (hid : p.id = some id) (ho : p.owner = .others)
    (h : hits (changes.applied p) rows = [row]) :
    resolveUpdate p changes rows =
      .ok ⟨(updateOnto row (changes.applied p) changes).1, [id],
        (updateOnto row (changes.applied p) changes).2⟩ := by
  rw [resolveUpdate_of_hit ho h, hid]
  rfl

theorem resolveUpdate_of_many {row' : Profile} {more : List Profile} (ho : p.owner = .others)
    (h : hits (changes.applied p) rows = row :: row' :: more) :
    resolveUpdate p changes rows = .error (ambiguous (more.length + 2) (changes.applied p)) := by
  simp only [resolveUpdate, h, ho]
  rfl

/-- A policy row that would collide stops the update. -/
theorem resolveUpdate_of_dpc (ho : p.owner = .dpc) (hh : hits (changes.applied p) rows ≠ []) :
    ∃ e, resolveUpdate p changes rows = .error e ∧ e.kind = .conflict := by
  match h : hits (changes.applied p) rows with
  | [] => exact absurd h hh
  | [row] =>
    refine ⟨.dpcUpdateCollides p.id row.id, ?_, rfl⟩
    simp only [resolveUpdate, h, ho, if_true]
  | row :: row' :: more =>
    refine ⟨.dpcUpdateCollidesWithMany p.id (row :: row' :: more).length, ?_, rfl⟩
    simp only [resolveUpdate, h, ho, if_true]

/-! ## Profiles that wait -/

section Waiting

variable {waiting : List Profile} {i : Nat}

theorem placeOf_eq_none : placeOf waiting p = none ↔ ∀ w ∈ waiting, w.key ≠ p.key := by
  rw [placeOf, List.findIdx?_eq_none_iff]
  exact forall₂_congr fun w _ => beq_eq_false_iff_ne

/-- The waiting profile at the place has the key. -/
theorem exists_of_placeOf (h : placeOf waiting p = some i) :
    ∃ hi : i < waiting.length, waiting[i].key = p.key := by
  obtain ⟨hi, hk, -⟩ := List.findIdx?_eq_some_iff_getElem.mp h
  exact ⟨hi, beq_iff_eq.mp hk⟩

theorem landAt_eq_set (hi : i < waiting.length) (p : Profile) :
    landAt waiting i p = waiting.set i (mergeOnto waiting[i] p).1 := by
  rw [landAt, List.modify_eq_set, List.getElem?_eq_getElem hi]
  rfl

/-- A profile that lands on a waiting one leaves the keys that wait as they are. -/
theorem map_key_landAt (h : placeOf waiting p = some i) :
    (landAt waiting i p).map Profile.key = waiting.map Profile.key := by
  obtain ⟨hi, hk⟩ := exists_of_placeOf h
  have hlen : i < (waiting.map Profile.key).length := by rwa [List.length_map]
  rw [landAt_eq_set hi, List.map_set, key_mergeOnto hk, ← List.getElem_map Profile.key (h := hlen),
    List.set_getElem_self]

end Waiting

end Collision

/-! ## One decision after the other -/

section Decisions

variable {δ α ε : Type} {step : δ → α → Except ε δ} {P : List α → δ → Prop}

theorem foldlM_induction_from : ∀ {xs done : List α} {d d' : δ}, P done d →
    (∀ x ∈ xs, ∀ done d d', P done d → step d x = .ok d' → P (done ++ [x]) d') →
    xs.foldlM step d = .ok d' → P (done ++ xs) d'
  | [], done, _, _, h, _, hfold => by
    cases hfold
    rwa [List.append_nil]
  | x :: xs, done, d, d', h, hstep, hfold => by
    rw [List.foldlM_cons] at hfold
    cases hx : step d x with
    | error err =>
      rw [hx] at hfold
      cases hfold
    | ok d₁ =>
      rw [hx] at hfold
      have hrest := foldlM_induction_from (hstep x List.mem_cons_self done d d₁ h hx)
        (fun y hy => hstep y (List.mem_cons_of_mem x hy)) hfold
      rwa [List.append_assoc, List.singleton_append] at hrest

/-- **What each decision keeps is true after all of them**, if none fails. It may speak of the things
decided so far. -/
theorem foldlM_induction {xs : List α} {d d' : δ} (hempty : P [] d)
    (hstep : ∀ x ∈ xs, ∀ done d d', P done d → step d x = .ok d' → P (done ++ [x]) d')
    (h : xs.foldlM step d = .ok d') : P xs d' :=
  foldlM_induction_from hempty hstep h

end Decisions

end ApnRegistry
