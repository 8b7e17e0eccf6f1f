import ApnRegistry.Proofs.Keys
import ApnRegistry.Proofs.Table
import Mathlib.Data.List.Nodup
import Mathlib.Logic.Relation

/-!
# Moves: the single steps in which a table changes

Whatever a call does to the table, it does it by `Move`s of one row each: a row gets another
content, goes, or is new. A row's content changes within its shard, and a key that comes into the
table is one that no other row has. `Moves S` are any number of such steps, all of them on rows of
shards in `S`.

Results, for valid tables:
* `Moves.valid`: the table stays valid.
* `Moves.keysUnique`: keys stay distinct where they were.
* `Moves.get?_iff`: rows of other shards are there afterwards iff they were there before.
* `Moves.get?_eq_none`: a row that is gone does not come back.
-/

namespace ApnRegistry

namespace Table

variable {t t' t'' : Table} {id other : RowId} {p q row : Profile} {S S' : Shard → Prop}

/-- No two rows, tombstones included, have the same key. -/
def KeysUnique (t : Table) : Prop := (t.rows.profiles.map Profile.key).Nodup

instance : Decidable t.KeysUnique := inferInstanceAs (Decidable (List.Nodup _))

theorem Valid.keysUnique_iff (h : t.Valid) : t.KeysUnique ↔
    ∀ id other p q, t.get? id = some p → t.get? other = some q → p.key = q.key → id = other := by
  rw [KeysUnique, Rows.profiles, List.map_map]
  constructor
  · intro hn id other p q hp hq hk
    have := List.inj_on_of_nodup_map hn (h.mem_iff.mpr hp) (h.mem_iff.mpr hq) hk
    exact congrArg Prod.fst this
  · intro hu
    have hrows : t.rows.Nodup :=
      List.Pairwise.imp (fun {a b} hlt (heq : a = b) => Nat.ne_of_lt hlt (heq ▸ rfl)) h.sorted
    refine hrows.map_on fun e he e' he' hk => ?_
    have hid : e.1 = e'.1 := hu _ _ _ _ (h.mem_iff.mp he) (h.mem_iff.mp he') hk
    have hp := h.mem_iff.mp he
    rw [hid, h.mem_iff.mp he'] at hp
    exact Prod.ext hid (Option.some.inj hp).symm

/-! ## Hits in a table -/

/-- What a stored row may become: no row under another id has the key. -/
def KeyFree (t : Table) (id : RowId) (k : Profile.Key) : Prop :=
  ∀ other r, t.get? other = some r → r.key = k → other = id

/-- A key that no row has. -/
def KeyNew (t : Table) (k : Profile.Key) : Prop := ∀ other r, t.get? other = some r → r.key ≠ k

theorem Valid.keyFree_of_hits (h : t.Valid) (hp : p.id = some id)
    (hh : Collision.hits p t.rows.profiles = []) : t.KeyFree id p.key := by
  intro other r hr hk
  by_contra hne
  have : r ∈ Collision.hits p t.rows.profiles := by
    refine Collision.mem_hits.mpr ⟨h.mem_profiles hr, Or.inr ?_, hk⟩
    rw [h.id_of_get? hr, hp]
    exact fun heq => hne (Option.some.inj heq)
  rw [hh] at this
  exact List.not_mem_nil this

theorem Valid.keyNew_of_hits (h : t.Valid) (hp : p.id = none)
    (hh : Collision.hits p t.rows.profiles = []) : t.KeyNew p.key := by
  intro other r hr hk
  have : r ∈ Collision.hits p t.rows.profiles :=
    Collision.mem_hits.mpr ⟨h.mem_profiles hr, Or.inl hp, hk⟩
  rw [hh] at this
  exact List.not_mem_nil this

/-- A row that is hit stands in the table under its own id, with the key in question. -/
theorem Valid.exists_of_mem_hits (h : t.Valid) (hm : row ∈ Collision.hits p t.rows.profiles) :
    ∃ id, row.id = some id ∧ t.get? id = some row ∧ row.key = p.key ∧ p.id ≠ some id := by
  obtain ⟨hrow, hid, hk⟩ := Collision.mem_hits.mp hm
  obtain ⟨id, hid', hg⟩ := h.mem_profiles_iff.mp hrow
  refine ⟨id, hid', hg, hk, ?_⟩
  rcases hid with hn | hne
  · rw [hn]
    nofun
  · exact fun heq => hne (hid'.trans heq.symm)

theorem Valid.isFree_iff {k : Profile.Key} (h : t.Valid) :
    Collision.isFree t.rows.profiles k = true ↔ t.KeyNew k := by
  rw [Collision.isFree_eq_true]
  constructor
  · exact fun hall other r hr => hall r (h.mem_profiles hr)
  · intro hnew r hr
    obtain ⟨id, -, hg⟩ := h.mem_profiles_iff.mp hr
    exact hnew id r hg

/-- A key is new behind a new row iff it was new before and is not that of the row. -/
theorem Valid.keyNew_push {k : Profile.Key} (h : t.Valid) :
    (t.push p).2.KeyNew k ↔ t.KeyNew k ∧ p.key ≠ k := by
  constructor
  · intro hnew
    refine ⟨fun id r hr => hnew id r ?_, hnew ⟨t.nextId⟩ { p with id := some ⟨t.nextId⟩ } ?_⟩
    · rw [get?_push, if_neg, hr]
      rintro rfl
      exact Nat.lt_irrefl _ (h.lt_nextId hr)
    · rw [get?_push, if_pos rfl]
  · rintro ⟨hnew, hne⟩ id r hr
    rw [get?_push] at hr
    split at hr
    · cases hr
      exact hne
    · exact hnew id r hr

/-- A profile hits at most one row of a table with distinct keys. -/
theorem Valid.length_hits_le_one (hv : t.Valid) (hk : t.KeysUnique) (p : Profile) :
    (Collision.hits p t.rows.profiles).length ≤ 1 := by
  have hlists : t.Lists (Collision.hits p t.rows.profiles) := hv.lists.filter _
  match hh : Collision.hits p t.rows.profiles with
  | [] => exact Nat.zero_le 1
  | [_] => exact Nat.le_refl 1
  | r :: r' :: more =>
    exfalso
    rw [hh] at hlists
    have hr : r ∈ Collision.hits p t.rows.profiles := by
      rw [hh]
      exact List.mem_cons_self
    have hr' : r' ∈ Collision.hits p t.rows.profiles := by
      rw [hh]
      exact List.mem_cons_of_mem r List.mem_cons_self
    obtain ⟨id, hid, hg, hkey, -⟩ := hv.exists_of_mem_hits hr
    obtain ⟨id', hid', hg', hkey', -⟩ := hv.exists_of_mem_hits hr'
    have hsame := hv.keysUnique_iff.mp hk id id' r r' hg hg' (hkey.trans hkey'.symm)
    exact List.rel_of_pairwise_cons hlists.different List.mem_cons_self
      (hid.trans (hsame ▸ hid'.symm))

/-! ## One move -/

/-- One row of a shard in `S` changes: the ways in which a table gets another. -/
inductive Move (S : Shard → Prop) (t : Table) : Table → Prop
  /-- A row gets another content in the same shard, with its old key or with one that no other row
  has. -/
  | rewrite {id : RowId} {p q : Profile} (old : t.get? id = some p) (named : q.id = some id)
      (shard : q.shard = p.shard) (allowed : S p.shard) (key : q.key = p.key ∨ t.KeyFree id q.key) :
      Move S t (t.set id q)
  /-- A row goes. -/
  | drop {id : RowId} {p : Profile} (old : t.get? id = some p) (allowed : S p.shard) :
      Move S t (t.remove id)
  /-- A row with a new key comes. -/
  | add {p : Profile} (allowed : S p.shard) (key : t.KeyNew p.key) : Move S t (t.push p).2

theorem Move.mono (h : Move S t t') (hS : ∀ s, S s → S' s) : Move S' t t' := by
  cases h with
  | rewrite old named shard allowed key => exact .rewrite old named shard (hS _ allowed) key
  | drop old allowed => exact .drop old (hS _ allowed)
  | add allowed key => exact .add (hS _ allowed) key

theorem Move.valid (h : Move S t t') (hv : t.Valid) : t'.Valid := by
  cases h with
  | rewrite old named _ _ _ => exact hv.set old named
  | drop _ _ => exact hv.remove _
  | add _ _ => exact hv.push _

/-- **A move keeps keys distinct.** -/
theorem Move.keysUnique (h : Move S t t') (hv : t.Valid) (hk : t.KeysUnique) : t'.KeysUnique := by
  have hu := hv.keysUnique_iff.mp hk
  refine (h.valid hv).keysUnique_iff.mpr ?_
  cases h with
  | @rewrite id p q old named shard allowed key =>
    -- Either key leaves `id` as the only place of the new content's key.
    have hfree : t.KeyFree id q.key := by
      rcases key with hkey | hfree
      · exact fun other r hr hrk => hu _ _ _ _ hr old (hrk.trans hkey)
      · exact hfree
    intro a b x y ha hb hxy
    rw [get?_set] at ha hb
    split at ha <;> split at hb
    · rename_i h₁ h₂; exact h₁.trans h₂.symm
    · rename_i h₁ h₂; cases ha; exact h₁.trans (hfree _ _ hb hxy.symm).symm
    · rename_i h₁ h₂; cases hb; exact (hfree _ _ ha hxy).trans h₂.symm
    · exact hu _ _ _ _ ha hb hxy
  | drop old allowed =>
    intro a b x y ha hb hxy
    rw [get?_remove] at ha hb
    split at ha
    · cases ha
    · split at hb
      · cases hb
      · exact hu _ _ _ _ ha hb hxy
  | add allowed key =>
    intro a b x y ha hb hxy
    rw [get?_push] at ha hb
    split at ha <;> split at hb
    · rename_i h₁ h₂; exact h₁.trans h₂.symm
    · cases ha; exact absurd hxy.symm (key _ _ hb)
    · cases hb; exact absurd hxy (key _ _ ha)
    · exact hu _ _ _ _ ha hb hxy

/-- A move leaves the rows of other shards alone. -/
theorem Move.get?_iff (h : Move S t t') (hv : t.Valid) (hs : ¬S row.shard) :
    t'.get? id = some row ↔ t.get? id = some row := by
  have differs {p : Profile} (hp : S p.shard) : p ≠ row := fun heq => hs (heq ▸ hp)
  cases h with
  | @rewrite k p q old named shard allowed key =>
    rw [get?_set]
    split
    · rename_i hid
      subst hid
      rw [old, Option.some.injEq, Option.some.injEq]
      exact ⟨fun heq => absurd heq (differs (shard ▸ allowed)),
        fun heq => absurd heq (differs allowed)⟩
    · exact Iff.rfl
  | @drop k p old allowed =>
    rw [get?_remove]
    split
    · rename_i hid
      subst hid
      rw [old, Option.some.injEq]
      exact ⟨nofun, fun heq => absurd heq (differs allowed)⟩
    · exact Iff.rfl
  | @add p allowed key =>
    rw [get?_push]
    split
    · rename_i hid
      subst hid
      rw [hv.get?_eq_none (Nat.le_refl _), Option.some.injEq]
      exact ⟨fun heq => absurd (heq ▸ allowed : S row.shard) hs, nofun⟩
    · exact Iff.rfl

/-- The next id only grows. -/
theorem Move.nextId_le (h : Move S t t') : t.nextId ≤ t'.nextId := by
  cases h with
  | rewrite => exact Nat.le_refl _
  | drop => exact Nat.le_refl _
  | add => exact Nat.le_succ _

/-- **A move brings no row back**: where an id was handed out and no row has it, no row gets it. -/
theorem Move.get?_eq_none (h : Move S t t') (hid : id.val < t.nextId) (hg : t.get? id = none) :
    t'.get? id = none := by
  cases h with
  | rewrite old =>
    rw [get?_set, if_neg, hg]
    rintro rfl
    rw [old] at hg
    cases hg
  | drop old =>
    rw [get?_remove, hg, ite_self]
  | add =>
    rw [get?_push, if_neg, hg]
    rintro rfl
    exact Nat.lt_irrefl _ hid

/-! ## Any number of moves -/

/-- The table changes by moves of rows of shards in `S`. -/
def Moves (S : Shard → Prop) : Table → Table → Prop := Relation.ReflTransGen (Move S)

theorem Moves.refl (t : Table) : Moves S t t := Relation.ReflTransGen.refl

theorem Move.moves (h : Move S t t') : Moves S t t' := Relation.ReflTransGen.single h

theorem Moves.trans (h : Moves S t t') (h' : Moves S t' t'') : Moves S t t'' :=
  Relation.ReflTransGen.trans h h'

theorem Moves.tail (h : Moves S t t') (h' : Move S t' t'') : Moves S t t'' :=
  Relation.ReflTransGen.tail h h'

theorem Moves.mono (h : Moves S t t') (hS : ∀ s, S s → S' s) : Moves S' t t' :=
  Relation.ReflTransGen.mono (fun _ _ (hm : Move S _ _) => hm.mono hS) _ _ h

theorem Moves.valid (h : Moves S t t') (hv : t.Valid) : t'.Valid := by
  induction h with
  | refl => exact hv
  | tail _ hm ih => exact hm.valid ih

theorem Moves.keysUnique (h : Moves S t t') (hv : t.Valid) (hk : t.KeysUnique) :
    t'.KeysUnique := by
  induction h with
  | refl => exact hk
  | tail hms hm ih => exact hm.keysUnique (Moves.valid hms hv) ih

theorem Moves.get?_iff (h : Moves S t t') (hv : t.Valid) (hs : ¬S row.shard) :
    t'.get? id = some row ↔ t.get? id = some row := by
  induction h with
  | refl => exact Iff.rfl
  | tail hms hm ih => exact (hm.get?_iff (Moves.valid hms hv) hs).trans ih

/-- A row that is there before or after, but not both, is a row of the shards. -/
theorem Moves.allowed (h : Moves S t t') (hv : t.Valid)
    (hne : ¬(t.get? id = some row ↔ t'.get? id = some row)) : S row.shard := by
  by_contra hs
  exact hne (h.get?_iff hv hs).symm

theorem Moves.nextId_le (h : Moves S t t') : t.nextId ≤ t'.nextId := by
  induction h with
  | refl => exact Nat.le_refl _
  | tail _ hm ih => exact Nat.le_trans ih hm.nextId_le

theorem Moves.get?_eq_none (h : Moves S t t') (hid : id.val < t.nextId) (hg : t.get? id = none) :
    t'.get? id = none := by
  induction h with
  | refl => exact hg
  | tail hms hm ih => exact hm.get?_eq_none (Nat.lt_of_lt_of_le hid (Moves.nextId_le hms)) ih

end Table

end ApnRegistry
