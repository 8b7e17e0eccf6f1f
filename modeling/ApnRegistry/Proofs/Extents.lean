import ApnRegistry.Proofs.Restore

/-!
# The two tests of an extent

A restore asks of each stored row whether it lies in the extent, and of each factory profile whether it is
admitted. The first test selects rows by their columns, the second one compares operators, and either may
have to compare the SIM with a pattern that the engine refuses. An answer (`Extent.answerOnRow`,
`Extent.answerOnDefault`) is what the test says, or its failure.

Answers on rows are settled by the key. What the second test says of a factory profile the first one says of
the row that it would become, unless the extent is that of the unpinned rows: these lie in it whatever their
operator is.

Results:
* `answerOnRow_eq`, `answerOnDefault_eq`: what is asked of a row and of a factory profile, step by step.
* `answerOnRow_congr`: rows with equal keys get one answer.
* `answerOnRow_seed`: the answer on a seed.
* `answers_of_prepare`: a planned restore has an answer for all rows and factory profiles.
* `tests_agree`: both tests compared.
-/

namespace ApnRegistry

open Collision

/-- What a test says, unless it was refused. -/
def answered (refusal : Option Error) (verdict : Bool) : Except Error Bool :=
  match refusal with
  | some err => .error err
  | none => .ok verdict

theorem answered_eq_ok {refusal : Option Error} {verdict b : Bool} :
    answered refusal verdict = .ok b ↔ refusal = none ∧ verdict = b := by
  cases refusal with
  | none => exact ⟨fun h => ⟨rfl, Except.ok.inj h⟩, fun h => congrArg Except.ok h.2⟩
  | some err => exact ⟨nofun, nofun⟩

/-- The answer to whether the profile is open to the SIM. -/
def Mvno.answer (engine : Engine) (p : Profile) (sim : Sim) : Except Error Bool :=
  answered (refusal engine p sim) (admits p sim)

namespace Restore

/-- The answer to whether the stored row lies in the extent. -/
def Extent.answerOnRow (engine : Mvno.Engine) (e : Extent) (p : Profile) : Except Error Bool :=
  answered (e.refusalOfRow engine p) (e.contains p)

/-- The answer to whether the factory profile is admitted. On the whole device it is so without any
comparison. -/
def Extent.answerOnDefault (engine : Mvno.Engine) (e : Extent) (p : Profile) : Except Error Bool :=
  answered (if e.subscription.isSome then e.refusalOfDefault engine p else none) (e.admits p)

variable {engine : Mvno.Engine} {e : Extent} {p q : Profile} {rows factory : List Profile}

/-! ## Step by step -/

/-- **What is asked of a row**: its owner, whether it belongs to the subscription, and only then whether it is
open to the SIM. -/
theorem answerOnRow_eq (engine : Mvno.Engine) (e : Extent) (p : Profile) :
    e.answerOnRow engine p =
      if p.owner = .others then
        match e.subscription with
        | none => .ok true
        | some s =>
          if (Selection.ofSubscription s e.sim.operator).holds p then Mvno.answer engine p e.sim
          else .ok false
      else .ok false := by
  unfold Extent.answerOnRow Extent.refusalOfRow Extent.contains
  cases p.owner with
  | dpc => cases e.subscription <;> rfl
  | others =>
    cases e.subscription with
    | none => rfl
    | some s =>
      simp only [beq_self_eq_true, Bool.true_and, if_true]
      cases (Selection.ofSubscription s e.sim.operator).holds p with
      | true => rfl
      | false => rfl

/-- **What is asked of a factory profile**: its operator, and only then whether it is open to the SIM. -/
theorem answerOnDefault_eq (engine : Mvno.Engine) (e : Extent) (p : Profile) :
    e.answerOnDefault engine p =
      match e.subscription with
      | none => .ok true
      | some _ =>
        if e.sim.operator = some p.numeric then Mvno.answer engine p e.sim else .ok false := by
  unfold Extent.answerOnDefault Extent.refusalOfDefault Extent.admits
  cases e.subscription with
  | none => rfl
  | some s =>
    by_cases hop : e.sim.operator = some p.numeric
    · simp only [hop, beq_self_eq_true, Option.isSome_some, if_true, Bool.or_true, Bool.true_and]
      rfl
    · simp [hop, answered]

/-! ## Keys -/

/-- Rows with equal keys have the same pattern, and so the same objection to it. -/
theorem refusal_congr {sim : Sim} (h : p.key = q.key) :
    Mvno.refusal engine p sim = Mvno.refusal engine q sim := by
  simp only [Mvno.refusal, Profile.mvnoKind_eq_of_key_eq h, Profile.mvnoData_eq_of_key_eq h]

/-- **Rows with equal keys get one answer**, or fail alike. -/
theorem answerOnRow_congr (h : p.key = q.key) : e.answerOnRow engine p = e.answerOnRow engine q := by
  have hanswer : Mvno.answer engine p e.sim = Mvno.answer engine q e.sim := by
    rw [Mvno.answer, Mvno.answer, refusal_congr h, admits_congr h]
  rw [answerOnRow_eq, answerOnRow_eq, Profile.owner_eq_of_key_eq h]
  cases e.subscription with
  | none => rfl
  | some s => simp only [holds_ofSubscription_congr h, hanswer]

/-! ## Seeds -/

/-- **The answer on a seed** is that on the factory profile, or, if the extent is that of the unpinned rows,
that of the SIM alone. -/
theorem answerOnRow_seed (engine : Mvno.Engine) (e : Extent) (p : Profile) :
    e.answerOnRow engine (seed p) =
      if e.subscription = some .unpinned then Mvno.answer engine p e.sim
      else e.answerOnDefault engine p := by
  have howner : (seed p).owner = .others := rfl
  rw [answerOnRow_eq, answerOnDefault_eq, if_pos howner]
  cases e.subscription with
  | none => rfl
  | some s =>
    have hseed : Mvno.answer engine (seed p) e.sim = Mvno.answer engine p e.sim := rfl
    simp only [holds_ofSubscription_seed, hseed, Option.some.injEq]
    by_cases hs : s = .unpinned
    · rw [if_pos hs, if_pos (Or.inl hs)]
    · rw [if_neg hs]
      simp only [hs, false_or]

/-- What is admitted lies in the extent once it is seeded. -/
theorem answerOnRow_seed_of_admitted (h : e.answerOnDefault engine p = .ok true) :
    e.answerOnRow engine (seed p) = .ok true := by
  rw [answerOnRow_seed]
  split
  · -- What is admitted to a subscription was found open to the SIM.
    rename_i hs
    rw [answerOnDefault_eq, hs] at h
    by_cases hop : e.sim.operator = some p.numeric
    · rwa [if_pos hop] at h
    · rw [if_neg hop] at h
      cases h
  · exact h

/-- A row that an admitted default collides with lies in the extent. -/
theorem answerOnRow_of_hit (h : e.answerOnDefault engine p = .ok true) {row : Profile}
    (hrow : row ∈ hits (seed p) rows) : e.answerOnRow engine row = .ok true :=
  (answerOnRow_congr (mem_hits.mp hrow).2.2).trans (answerOnRow_seed_of_admitted h)

/-! ## Plans -/

/-- **A planned restore has all its answers**: the two tests failed on no row and on no factory profile. -/
theorem answers_of_prepare {plan : Plan} (h : prepare engine rows factory e = .ok plan) :
    (∀ p ∈ rows, e.answerOnRow engine p = .ok (e.contains p)) ∧
      ∀ p ∈ factory, e.answerOnDefault engine p = .ok (e.admits p) := by
  obtain ⟨hrows, hfactory⟩ := refusal_eq_none.mp (prepare_eq_ok.mp h).1
  exact ⟨fun p hp => answered_eq_ok.mpr ⟨hrows p hp, rfl⟩,
    fun p hp => answered_eq_ok.mpr ⟨by rw [hfactory p hp, ite_self], rfl⟩⟩

/-- **The two tests of an extent agree.** Rows with equal keys get one answer. A factory profile that is
admitted lies in the extent once it is seeded, and on the device or on any subscription but the mark of
unpinned rows its two answers are the same. For that mark the operator is not asked for. So an admitted
profile collides with rows of the extent only, and in a restore that is planned this is true of every seed. -/
theorem tests_agree (engine : Mvno.Engine) (e : Extent) :
    (∀ p q : Profile, p.key = q.key → e.answerOnRow engine p = e.answerOnRow engine q) ∧
    (∀ p, e.answerOnDefault engine p = .ok true → e.answerOnRow engine (seed p) = .ok true) ∧
    (e.subscription ≠ some .unpinned →
      ∀ p, e.answerOnRow engine (seed p) = e.answerOnDefault engine p) ∧
    (e.subscription = some .unpinned →
      ∀ p, e.answerOnRow engine (seed p) = Mvno.answer engine p e.sim) ∧
    (∀ p rows, e.answerOnDefault engine p = .ok true →
      ∀ row ∈ hits (seed p) rows, e.answerOnRow engine row = .ok true) ∧
    ∀ rows factory plan, prepare engine rows factory e = .ok plan →
      ∀ q ∈ seeds e factory, ∀ row ∈ hits q rows, e.answerOnRow engine row = .ok true := by
  refine ⟨fun _ _ => answerOnRow_congr, fun _ => answerOnRow_seed_of_admitted, fun hs p => ?_,
    fun hs p => ?_, fun _ _ h _ => answerOnRow_of_hit h, fun rows factory plan h q hq row hrow => ?_⟩
  · rw [answerOnRow_seed, if_neg hs]
  · rw [answerOnRow_seed, if_pos hs]
  · obtain ⟨p, hp, hadm, rfl⟩ := mem_seeds.mp hq
    have hanswer := (answers_of_prepare h).2 p hp
    exact answerOnRow_of_hit (hadm ▸ hanswer) hrow

/-- The engine takes patterns of up to eight characters. A profile with a short one is admitted and collides
with an edited row of the extent; with a long one both tests fail. A profile of another operator is not
admitted, though it would lie in the extent of the unpinned rows once it is seeded. -/
theorem tests_agree_short_pattern :
    let engine : Mvno.Engine := fun pattern => if pattern.length ≤ 8 then none else some "too long"
    let sim : Sim := { operator := some "26201", imsi := some "262011234567890" }
    let e : Extent := { subscription := some ⟨0⟩, sim }
    let unpinned : Extent := { subscription := some .unpinned, sim }
    let narrow (pattern : String) : Profile :=
      { apn := "web", numeric := "26201", mvnoKind := .imsi, mvnoData := pattern }
    let row : Profile := { narrow "262011x3" with id := some ⟨1⟩, name := "Mine", status := .userEdited }
    let other : Profile := { apn := "web", numeric := "26202" }
    e.answerOnDefault engine (narrow "262011x3") = .ok true ∧
      e.answerOnRow engine (seed (narrow "262011x3")) = .ok true ∧
      e.answerOnRow engine row = e.answerOnRow engine (seed (narrow "262011x3")) ∧
      e.answerOnRow engine row = .ok true ∧
      e.answerOnRow engine (seed (narrow "262011x34")) =
        .error (.refusedPattern "262011x34" "too long") ∧
      unpinned.answerOnRow engine (seed other) = .ok true ∧
      unpinned.answerOnDefault engine other = .ok false ∧
      ∀ q ∈ seeds e [narrow "262011x3", other], ∀ r ∈ hits q [row],
        e.answerOnRow engine r = .ok true := by
  intro engine sim e unpinned narrow row other
  obtain ⟨halike, hseeded, hsame, -, hhit, hplanned⟩ := tests_agree engine e
  obtain ⟨-, -, -, hunpinned, -, -⟩ := tests_agree engine unpinned
  have hadmitted : e.answerOnDefault engine (narrow "262011x3") = .ok true := by decide
  have hplan : prepare engine [row] [narrow "262011x3", other] e =
      .ok { batch := [], report := { preserved := 1 } } := by decide
  refine ⟨hadmitted, hseeded _ hadmitted, halike row _ rfl,
    hhit _ [row] hadmitted row (by decide), ?_, ?_, by decide, hplanned _ _ _ hplan⟩
  · rw [hsame (by decide)]
    decide
  · rw [hunpinned rfl]
    decide

end Restore

end ApnRegistry
