import ApnRegistry.Proofs.Table

/-!
# Rows that settle on new keys

Some rows of a table get new keys, one row after the other. A row whose new key is taken already does
not come to stand beside the one that has it: the two become one row, under the id of the other.
`Settled` says what one such step does to the table, `Settling` what a list of them does.

What makes the outcome independent of the order is that new keys are fixed points: a row whose key is
the new key of another would keep that key. So it does not matter whether a row was hit before or
after its own turn.

Results, for a list of rows that settles:
* `Settling.exists_key_iff`: the keys afterwards.
* `Settling.get?_eq_some`: rows that have no part in it stay as they are.
* `Settling.isSome_of_isSome`: no id is new.
* `Settling.holds_of_key`: what is true of every row that settles is true of the rows that have the
  new keys in the end.
-/

namespace ApnRegistry.Table

variable {t t₁ t' : Table} {id dest other : RowId} {ids : List RowId} {p q r : Profile}
  {k : Profile.Key} {next : Profile → Profile.Key} {P : Profile → Prop} {K : Profile.Key → Prop}

/-! ## One row -/

/-- The row under `id` has become `r`. It stands where it stood, or else in the place of another row
that had the key of `r` already, and no third row has that key. -/
structure Settled (t : Table) (id dest : RowId) (r : Profile) (t₁ : Table) : Prop where
  place : dest = id ∨ ∃ row, t.get? dest = some row ∧ row.key = r.key
  alone : ∀ other q, t.get? other = some q → q.key = r.key → other = id ∨ other = dest
  reads : ∀ other, t₁.get? other =
    if other = dest then some r else if other = id then none else t.get? other

namespace Settled

variable (h : Settled t id dest r t₁)

include h

theorem get?_dest : t₁.get? dest = some r := by rw [h.reads, if_pos rfl]

theorem get?_of_ne (hd : other ≠ dest) (hi : other ≠ id) : t₁.get? other = t.get? other := by
  rw [h.reads, if_neg hd, if_neg hi]

/-- A row that is left is the one that settled, or is as it was. -/
theorem eq_or_get? (hq : t₁.get? other = some q) :
    (other = dest ∧ q = r) ∨ (other ≠ dest ∧ other ≠ id ∧ t.get? other = some q) := by
  rw [h.reads] at hq
  split at hq
  · cases hq
    exact Or.inl ⟨‹_›, rfl⟩
  · split at hq
    · cases hq
    · exact Or.inr ⟨‹_›, ‹_›, hq⟩

/-- A row that stands in the place of another has its key. -/
theorem exists_of_ne (hi : dest ≠ id) : ∃ row, t.get? dest = some row ∧ row.key = r.key :=
  h.place.resolve_left hi

/-- What another row would settle on is not changed, as the key of `r` is a fixed point. -/
theorem exists_next_iff (hfix : ∀ q, q.key = r.key → next q = q.key) (hi : other ≠ id) :
    (∃ q, t₁.get? other = some q ∧ next q = k) ↔ ∃ q, t.get? other = some q ∧ next q = k := by
  by_cases hd : other = dest
  · subst hd
    obtain ⟨row, hrow, hkey⟩ := h.exists_of_ne hi
    rw [h.get?_dest, hrow]
    simp only [Option.some.injEq, exists_eq_left']
    rw [hfix r rfl, hfix row hkey, hkey]
  · rw [h.get?_of_ne hd hi]

/-- Nor are the keys of other rows. -/
theorem exists_key_iff (hi : other ≠ id) :
    (∃ q, t₁.get? other = some q ∧ q.key = k) ↔ ∃ q, t.get? other = some q ∧ q.key = k := by
  by_cases hd : other = dest
  · subst hd
    obtain ⟨row, hrow, hkey⟩ := h.exists_of_ne hi
    rw [h.get?_dest, hrow]
    simp only [Option.some.injEq, exists_eq_left']
    rw [hkey]
  · rw [h.get?_of_ne hd hi]

end Settled

/-! ## Any number of rows -/

/-- The rows under the ids settle one after the other, each on the key that `next` gives for what it
has become by then, and each as a row of which `P` is true. The keys that `next` gives for them are
fixed points of `next`. -/
inductive Settling (next : Profile → Profile.Key) (P : Profile → Prop) :
    List RowId → Table → Table → Prop
  | nil (t : Table) : Settling next P [] t t
  | cons {id dest : RowId} {p r : Profile} {ids : List RowId} {t t₁ t' : Table}
      (old : t.get? id = some p) (key : r.key = next p)
      (fixed : ∀ q, q.key = r.key → next q = q.key) (holds : P r)
      (here : Settled t id dest r t₁) (rest : Settling next P ids t₁ t') :
      Settling next P (id :: ids) t t'

namespace Settling

variable (h : Settling next P ids t t')

include h

/-- No id is new. -/
theorem isSome_of_isSome (hs : (t'.get? other).isSome) : (t.get? other).isSome := by
  induction h with
  | nil t => exact hs
  | @cons id dest p r ids t t₁ t' old _ _ _ here _ ih =>
    obtain ⟨q, hq⟩ := Option.isSome_iff_exists.mp (ih hs)
    rcases here.eq_or_get? hq with ⟨rfl, -⟩ | ⟨-, -, hq⟩
    · rcases here.place with rfl | ⟨row, hrow, -⟩
      · rw [old]
        rfl
      · rw [hrow]
        rfl
    · rw [hq]
      rfl

/-- **The keys afterwards** are those that the rows settle on and those of the other rows. -/
theorem exists_key_iff (hn : ids.Nodup) : (∃ other q, t'.get? other = some q ∧ q.key = k) ↔
    (∃ id ∈ ids, ∃ p, t.get? id = some p ∧ next p = k) ∨
      ∃ id, id ∉ ids ∧ ∃ p, t.get? id = some p ∧ p.key = k := by
  induction h with
  | nil t => simp
  | @cons id dest p r ids t t₁ t' old key fixed _ here rest ih =>
    obtain ⟨hid, hn⟩ := List.nodup_cons.mp hn
    have hne {other : RowId} (ho : other ∈ ids) : other ≠ id := fun heq => hid (heq ▸ ho)
    rw [ih hn]
    constructor
    · rintro (⟨other, ho, hnext⟩ | ⟨other, ho, q, hq, hk⟩)
      · exact Or.inl ⟨other, List.mem_cons_of_mem id ho,
          (here.exists_next_iff fixed (hne ho)).mp hnext⟩
      · rcases here.eq_or_get? hq with ⟨-, rfl⟩ | ⟨-, hi, hq⟩
        · exact Or.inl ⟨id, List.mem_cons_self, p, old, key.symm.trans hk⟩
        · exact Or.inr ⟨other, fun hm => (List.mem_cons.mp hm).elim hi ho, q, hq, hk⟩
    · rintro (⟨other, ho, hnext⟩ | ⟨other, ho, hkey⟩)
      · rcases List.mem_cons.mp ho with rfl | ho
        · -- The row itself: its key is found where it settled, which may be a row still to come.
          obtain ⟨p', hp', rfl⟩ := hnext
          obtain rfl : p = p' := Option.some.inj (old.symm.trans hp')
          by_cases hd : dest ∈ ids
          · exact Or.inl ⟨dest, hd, r, here.get?_dest, (fixed r rfl).trans key⟩
          · exact Or.inr ⟨dest, hd, r, here.get?_dest, key⟩
        · exact Or.inl ⟨other, ho, (here.exists_next_iff fixed (hne ho)).mpr hnext⟩
      · obtain ⟨hi, ho⟩ := not_or.mp (mt List.mem_cons.mpr ho)
        exact Or.inr ⟨other, ho, (here.exists_key_iff hi).mpr hkey⟩

/-- **A row that has no part in it stays**: it does not settle itself, and no row settles on its
key. -/
theorem get?_eq_some (hn : ids.Nodup) (ho : other ∉ ids) (hq : t.get? other = some q)
    (hnext : ∀ id ∈ ids, ∀ p, t.get? id = some p → next p ≠ q.key) : t'.get? other = some q := by
  induction h with
  | nil t => exact hq
  | @cons id dest p r ids t t₁ t' old key fixed _ here rest ih =>
    obtain ⟨hid, hn⟩ := List.nodup_cons.mp hn
    obtain ⟨hi, ho⟩ := not_or.mp (mt List.mem_cons.mpr ho)
    have hd : other ≠ dest := by
      rintro rfl
      obtain ⟨row, hrow, hkey⟩ := here.exists_of_ne hi
      obtain rfl : q = row := Option.some.inj (hq.symm.trans hrow)
      exact hnext id List.mem_cons_self p old (key.symm.trans hkey.symm)
    refine ih hn ho ((here.get?_of_ne hd hi).trans hq) fun i him p' hp' heq => ?_
    have hne : i ≠ id := fun heq => hid (heq ▸ him)
    obtain ⟨p'', hp'', hk⟩ := (here.exists_next_iff fixed hne).mp ⟨p', hp', heq⟩
    exact hnext i (List.mem_cons_of_mem id him) p'' hp'' hk

/-- Rows whose keys satisfy `K`, or are settled on, are rows of which `P` is true afterwards, if this
was so of `K` before. -/
theorem holds_of_key_or (hn : ids.Nodup) (hK : ∀ other q, t.get? other = some q → K q.key → P q)
    (hq : t'.get? other = some q)
    (hk : K q.key ∨ ∃ id ∈ ids, ∃ p, t.get? id = some p ∧ next p = q.key) : P q := by
  induction h generalizing K with
  | nil t =>
    rcases hk with hk | ⟨id, hid, -⟩
    · exact hK other q hq hk
    · exact absurd hid List.not_mem_nil
  | @cons id dest p r ids t t₁ t' old key fixed holds here rest ih =>
    obtain ⟨hid, hn⟩ := List.nodup_cons.mp hn
    refine ih (K := fun k => K k ∨ k = r.key) hn (fun i q' hq' hk' => ?_) hq ?_
    · rcases here.eq_or_get? hq' with ⟨-, rfl⟩ | ⟨hd, hi, hq'⟩
      · exact holds
      · rcases hk' with hk' | hk'
        · exact hK i q' hq' hk'
        · exact ((here.alone i q' hq' hk').elim hi hd).elim
    · rcases hk with hk | ⟨i, him, hnext⟩
      · exact Or.inl (Or.inl hk)
      · rcases List.mem_cons.mp him with rfl | him
        · obtain ⟨p', hp', hk⟩ := hnext
          obtain rfl : p = p' := Option.some.inj (old.symm.trans hp')
          exact Or.inl (Or.inr (hk.symm.trans key.symm))
        · have hne : i ≠ id := fun heq => hid (heq ▸ him)
          exact Or.inr ⟨i, him, (here.exists_next_iff fixed hne).mpr hnext⟩

/-- **Rows with keys that were settled on** are rows of which `P` is true. -/
theorem holds_of_key (hn : ids.Nodup) (hq : t'.get? other = some q)
    (hk : ∃ id ∈ ids, ∃ p, t.get? id = some p ∧ next p = q.key) : P q :=
  h.holds_of_key_or (K := fun _ => False) hn (fun _ _ _ hf => hf.elim) hq (Or.inr hk)

end Settling

end ApnRegistry.Table
