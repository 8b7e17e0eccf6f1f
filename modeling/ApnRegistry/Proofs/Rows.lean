import ApnRegistry.Rows

/-!
# Rows by id: reading, order, and what fixes them

Rows in ascending order are a finite map: an entry is listed iff it is found under its id
(`mem_iff_get?`), and two such lists are equal as soon as each id finds the same (`Sorted.ext`).
`put`, `erase` and filters keep the order, and each has one reading law.

Results:
* `get?_put`, `get?_erase`, `get?_map`, `Sorted.get?_filter`: reading after each operation.
* `profiles_filter`: choosing rows by their profiles.
* `Sorted.ext`: rows are determined by what is read from them.
* `Sorted.length_put`, `Sorted.length_erase`: overwriting a row adds none, erasing one leaves one less.
* `put_eq_append`: an entry above all others goes to the end.
* `Sorted.ofProfiles_profiles`: rows whose profiles carry their ids can be rebuilt from the profiles.
-/

namespace ApnRegistry.Rows

variable {rows : Rows} {id : RowId} {p : Profile}

/-! ## Reading -/

theorem get?_put (rows : Rows) (id : RowId) (p : Profile) (other : RowId) :
    (rows.put id p).get? other = if other = id then some p else rows.get? other := by
  by_cases h : other = id
  · rw [if_pos h, h, get?_put_self]
  · rw [if_neg h, get?_put_of_ne h]

theorem get?_erase (rows : Rows) (id other : RowId) :
    (rows.erase id).get? other = if other = id then none else rows.get? other := by
  by_cases h : other = id
  · rw [if_pos h, h, get?_erase_self]
  · rw [if_neg h, get?_erase_of_ne h]

theorem get?_eq_none_of_forall_ne (h : ∀ e ∈ rows, e.1 ≠ id) : rows.get? id = none := by
  induction rows with
  | nil => rfl
  | cons e rows ih =>
    rw [get?, if_neg (h e List.mem_cons_self)]
    exact ih fun e' he' => h e' (List.mem_cons_of_mem e he')

theorem mem_of_get? (h : rows.get? id = some p) : (id, p) ∈ rows := by
  induction rows with
  | nil => cases h
  | cons e rows ih =>
    unfold get? at h
    split at h
    · rename_i hk
      cases h
      rw [← hk]
      exact List.mem_cons_self
    · exact List.mem_cons_of_mem e (ih h)

theorem get?_append (rows more : Rows) (id : RowId) :
    get? (rows ++ more) id = (rows.get? id).or (more.get? id) := by
  induction rows with
  | nil => rfl
  | cons e rows ih =>
    rw [List.cons_append, get?, get?]
    split
    · rfl
    · exact ih

/-- Reading where only some ids were kept. -/
theorem get?_filter_id (rows : Rows) (f : RowId → Bool) (id : RowId) :
    get? (rows.filter (f ·.1)) id = if f id then rows.get? id else none := by
  induction rows with
  | nil => exact (ite_self none).symm
  | cons e rows ih =>
    rw [List.filter_cons, get?]
    by_cases he : e.1 = id
    · subst he
      split
      · rw [get?, if_pos rfl, if_pos rfl]
      · rename_i hf
        rw [ih, if_neg hf]
    · rw [if_neg he]
      split
      · rw [get?, if_neg he]
        exact ih
      · exact ih

theorem get?_map (rows : Rows) (f : RowId → Profile → Profile) (id : RowId) :
    get? (rows.map fun e => (e.1, f e.1 e.2)) id = (rows.get? id).map (f id) := by
  induction rows with
  | nil => rfl
  | cons e rows ih =>
    rw [List.map_cons, get?, get?]
    split
    · rename_i hk
      rw [Option.map_some, ← hk]
    · exact ih

/-- A condition on profiles chooses the same rows as it chooses profiles. -/
theorem profiles_filter (rows : Rows) (f : Profile → Bool) :
    profiles (rows.filter (f ·.2)) = rows.profiles.filter f := by
  rw [profiles, profiles, List.filter_map]
  rfl

theorem profiles_append (rows more : Rows) :
    profiles (rows ++ more) = rows.profiles ++ more.profiles :=
  List.map_append

/-! ## Order -/

theorem sorted_cons {e : RowId × Profile} :
    Sorted (e :: rows) ↔ (∀ e' ∈ rows, e.1.val < e'.1.val) ∧ Sorted rows :=
  List.pairwise_cons

theorem Sorted.filter (h : Sorted rows) (f : RowId × Profile → Bool) : Sorted (rows.filter f) :=
  List.Pairwise.filter f h

theorem Sorted.erase (h : Sorted rows) (id : RowId) : Sorted (rows.erase id) :=
  h.filter _

theorem mem_put {e : RowId × Profile} (h : e ∈ rows.put id p) : e = (id, p) ∨ e ∈ rows := by
  induction rows with
  | nil => exact Or.inl (List.mem_singleton.mp h)
  | cons e' rows ih =>
    unfold put at h
    split at h
    · rcases List.mem_cons.mp h with h | h
      · exact Or.inl h
      · exact Or.inr (List.mem_cons_of_mem e' h)
    · split at h
      · exact List.mem_cons.mp h
      · rcases List.mem_cons.mp h with h | h
        · exact Or.inr (h ▸ List.mem_cons_self)
        · exact (ih h).imp_right (List.mem_cons_of_mem e')

theorem Sorted.put (h : Sorted rows) (id : RowId) (p : Profile) : Sorted (rows.put id p) := by
  induction rows with
  | nil => exact List.pairwise_singleton _ _
  | cons e rows ih =>
    obtain ⟨hlt, hrows⟩ := sorted_cons.mp h
    unfold Rows.put
    split
    · rename_i hk
      exact sorted_cons.mpr ⟨hk ▸ hlt, hrows⟩
    · rename_i hk
      split
      · rename_i hid
        refine sorted_cons.mpr ⟨fun e' he' => ?_, h⟩
        rcases List.mem_cons.mp he' with rfl | he'
        · exact hid
        · exact Nat.lt_trans hid (hlt e' he')
      · rename_i hid
        refine sorted_cons.mpr ⟨fun e' he' => ?_, ih hrows⟩
        rcases mem_put he' with rfl | he'
        · have hne : e.1.val ≠ id.val := fun heq => hk (congrArg RowId.mk heq)
          show e.1.val < id.val
          omega
        · exact hlt e' he'

/-- **Sorted rows are a map**: an entry is listed iff it is found under its id. -/
theorem Sorted.mem_iff_get? (h : Sorted rows) : (id, p) ∈ rows ↔ rows.get? id = some p := by
  refine ⟨fun hm => ?_, mem_of_get?⟩
  induction rows with
  | nil => cases hm
  | cons e rows ih =>
    obtain ⟨hlt, hrows⟩ := sorted_cons.mp h
    rcases List.mem_cons.mp hm with rfl | hm
    · rw [get?, if_pos rfl]
    · have hne : e.1 ≠ id := fun heq => Nat.lt_irrefl _ (heq ▸ hlt _ hm)
      rw [get?, if_neg hne]
      exact ih hrows hm

theorem Sorted.mem_profiles_iff (h : Sorted rows) : p ∈ rows.profiles ↔ ∃ id, rows.get? id = some p := by
  rw [profiles, List.mem_map]
  constructor
  · rintro ⟨⟨id, q⟩, hm, rfl⟩
    exact ⟨id, h.mem_iff_get?.mp hm⟩
  · rintro ⟨id, hg⟩
    exact ⟨(id, p), h.mem_iff_get?.mpr hg, rfl⟩

theorem Sorted.get?_filter (h : Sorted rows) (f : Profile → Bool) (id : RowId) :
    get? (rows.filter (f ·.2)) id = (rows.get? id).filter f := by
  cases hg : rows.get? id with
  | none =>
    refine get?_eq_none_of_forall_ne fun e he heq => ?_
    have := h.mem_iff_get?.mp (List.mem_filter.mp he).1
    rw [heq, hg] at this
    cases this
  | some p =>
    by_cases hf : f p = true
    · rw [Option.filter, if_pos hf]
      exact (h.filter _).mem_iff_get?.mp (List.mem_filter.mpr ⟨mem_of_get? hg, hf⟩)
    · rw [Option.filter, if_neg hf]
      refine get?_eq_none_of_forall_ne fun e he heq => hf ?_
      obtain ⟨hm, hfe⟩ := List.mem_filter.mp he
      have := h.mem_iff_get?.mp hm
      rw [heq, hg] at this
      cases this
      exact hfe

/-! ## What fixes sorted rows -/

/-- The head of sorted rows is found at its id, and nothing is found below it. -/
theorem Sorted.get?_of_lt_head {e : RowId × Profile} (h : Sorted (e :: rows)) (hid : id.val < e.1.val) :
    get? (e :: rows) id = none := by
  refine get?_eq_none_of_forall_ne fun e' he' heq => ?_
  subst heq
  rcases List.mem_cons.mp he' with rfl | he'
  · exact Nat.lt_irrefl _ hid
  · exact Nat.lt_asymm hid ((sorted_cons.mp h).1 e' he')

/-- **Extensionality**: sorted rows that are read alike are equal. -/
theorem Sorted.ext : ∀ {rows₁ rows₂ : Rows}, Sorted rows₁ → Sorted rows₂ →
    (∀ id, rows₁.get? id = rows₂.get? id) → rows₁ = rows₂
  | [], [], _, _, _ => rfl
  | [], (k, q) :: _, _, _, h => by simpa [get?] using h k
  | (k, q) :: _, [], _, _, h => by simpa [get?] using h k
  | (k, p) :: rows₁, (l, q) :: rows₂, h₁, h₂, h => by
    obtain rfl : k = l := by
      rcases Nat.lt_trichotomy k.val l.val with hlt | heq | hgt
      · have := (h k).symm.trans (by rw [get?, if_pos rfl] : _ = some p)
        rw [h₂.get?_of_lt_head hlt] at this
        cases this
      · exact congrArg RowId.mk heq
      · have := (h l).trans (by rw [get?, if_pos rfl] : _ = some q)
        rw [h₁.get?_of_lt_head hgt] at this
        cases this
    have hpq := h k
    rw [get?, if_pos rfl, get?, if_pos rfl] at hpq
    cases hpq
    refine congrArg _ (Sorted.ext (sorted_cons.mp h₁).2 (sorted_cons.mp h₂).2 fun id => ?_)
    by_cases hid : k = id
    · have away (rows : Rows) (hs : Sorted ((k, p) :: rows)) : rows.get? id = none :=
        get?_eq_none_of_forall_ne fun e he heq =>
          Nat.lt_irrefl _ (hid ▸ heq ▸ (sorted_cons.mp hs).1 e he)
      rw [away _ h₁, away _ h₂]
    · have := h id
      rwa [get?, if_neg hid, get?, if_neg hid] at this

theorem Sorted.filter_put_of_pos (h : Sorted rows) {f : Profile → Bool} (hf : f p = true) :
    List.filter (f ·.2) (rows.put id p) = Rows.put (rows.filter (f ·.2)) id p := by
  refine ((h.put id p).filter _).ext ((h.filter _).put id p) fun other => ?_
  rw [(h.put id p).get?_filter, get?_put, get?_put, h.get?_filter]
  split
  · rw [Option.filter, if_pos hf]
  · rfl

theorem filter_erase (rows : Rows) (id : RowId) (f : RowId × Profile → Bool) :
    List.filter f (rows.erase id) = Rows.erase (rows.filter f) id := by
  simp only [Rows.erase, List.filter_filter, Bool.and_comm]

/-! ## How many rows there are -/

/-- Overwriting a row adds none. -/
theorem Sorted.length_put (h : Sorted rows) (hid : (rows.get? id).isSome) (p : Profile) :
    (rows.put id p).length = rows.length := by
  induction rows with
  | nil => cases hid
  | cons e rows ih =>
    by_cases he : e.1 = id
    · rw [Rows.put, if_pos he, List.length_cons, List.length_cons]
    · have hnot : ¬id.val < e.1.val := fun hlt => by
        rw [h.get?_of_lt_head hlt] at hid
        cases hid
      rw [Rows.put, if_neg he, if_neg hnot, List.length_cons, List.length_cons]
      rw [get?, if_neg he] at hid
      rw [ih (sorted_cons.mp h).2 hid]

/-- Erasing a row leaves one less. -/
theorem Sorted.length_erase (h : Sorted rows) (hid : (rows.get? id).isSome) :
    (rows.erase id).length + 1 = rows.length := by
  induction rows with
  | nil => cases hid
  | cons e rows ih =>
    obtain ⟨hlt, hrows⟩ := sorted_cons.mp h
    by_cases he : e.1 = id
    · have hkeep : Rows.erase rows id = rows := by
        refine List.filter_eq_self.mpr fun e' he' => bne_iff_ne.mpr fun heq => ?_
        exact Nat.lt_irrefl _ (heq ▸ he ▸ hlt e' he')
      have hdrop : Rows.erase (e :: rows) id = Rows.erase rows id :=
        List.filter_cons_of_neg (by simp [he])
      rw [hdrop, hkeep, List.length_cons]
    · have hcons : Rows.erase (e :: rows) id = e :: Rows.erase rows id :=
        List.filter_cons_of_pos (bne_iff_ne.mpr he)
      rw [get?, if_neg he] at hid
      rw [hcons, List.length_cons, List.length_cons, ih hrows hid]

/-! ## Building rows up -/

theorem put_eq_append (h : ∀ e ∈ rows, e.1.val < id.val) : rows.put id p = rows ++ [(id, p)] := by
  induction rows with
  | nil => rfl
  | cons e rows ih =>
    have hlt := h e List.mem_cons_self
    rw [Rows.put, if_neg fun heq => Nat.lt_irrefl _ (heq ▸ hlt), if_neg (Nat.lt_asymm hlt),
      ih fun e' he' => h e' (List.mem_cons_of_mem e he'), List.cons_append]

/-- Entering profiles at the end, one after the other, by any function that puts each under its id. -/
theorem foldl_put_profiles {f : Rows → Profile → Rows}
    (hf : ∀ rows p id, p.id = some id → f rows p = rows.put id p) :
    ∀ {rest done : Rows}, Sorted (done ++ rest) → (∀ e ∈ rest, e.2.id = some e.1) →
      rest.profiles.foldl f done = done ++ rest
  | [], done, _, _ => (List.append_nil done).symm
  | e :: rest, done, hs, hn => by
    have hlt : ∀ e' ∈ done, e'.1.val < e.1.val := fun e' he' =>
      (List.pairwise_append.mp hs).2.2 e' he' e List.mem_cons_self
    have hcons : done ++ e :: rest = done ++ [e] ++ rest := by
      rw [List.append_assoc, List.singleton_append]
    show List.foldl f (f done e.2) (profiles rest) = done ++ e :: rest
    rw [hf done e.2 e.1 (hn e List.mem_cons_self), put_eq_append hlt, hcons]
    exact foldl_put_profiles hf (hcons ▸ hs) fun e' he' => hn e' (List.mem_cons_of_mem e he')

/-- **Rows from their profiles**, where each profile carries the id it stands under. -/
theorem Sorted.ofProfiles_profiles (h : Sorted rows) (hn : ∀ e ∈ rows, e.2.id = some e.1) :
    ofProfiles rows.profiles = rows := by
  have hfold : ofProfiles rows.profiles = [] ++ rows :=
    foldl_put_profiles (fun rows p id hp => by simp only [hp]) h hn
  rw [hfold, List.nil_append]

end ApnRegistry.Rows
