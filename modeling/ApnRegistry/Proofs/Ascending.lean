import ApnRegistry.Ascending
import ApnRegistry.Profile.Basic

/-!
# Ascending lists: which things are in them

`Ascending.ofList` keeps exactly the things of a list (`mem_ofList`), each once (`nodup_ofList`), and
`Ascending.search` finds exactly the things of a list that ascends (`search_iff`). The orders of row ids
and of shards are those of their parts, so that things that compare as equal are equal.
-/

namespace ApnRegistry

theorem RowId.compare_eq : (compare : RowId → RowId → Ordering) = compareOn RowId.val := by
  funext a b
  show instOrdRowId.ord a b = _
  simp [instOrdRowId.ord, compareOn]

instance : Std.TransOrd RowId := by
  rw [Std.TransOrd, RowId.compare_eq]
  infer_instance

instance : Std.LawfulEqOrd RowId where
  eq_of_compare {a b} h := by
    rw [RowId.compare_eq] at h
    exact congrArg RowId.mk (Std.LawfulEqOrd.eq_of_compare h)

instance : Std.LawfulEqOrd Owner where
  compare_self {a} := by cases a <;> rfl
  eq_of_compare {a b} h := by
    cases a <;> cases b
    · rfl
    · cases h
    · cases h
    · rfl

instance : Std.TransOrd Owner where
  eq_swap {a b} := by cases a <;> cases b <;> rfl
  isLE_trans {a b c} := by cases a <;> cases b <;> cases c <;> decide

theorem Subscription.compare_eq :
    (compare : Subscription → Subscription → Ordering) = compareOn Subscription.val := by
  funext a b
  show instOrdSubscription.ord a b = _
  simp [instOrdSubscription.ord, compareOn]

instance : Std.TransOrd Subscription := by
  rw [Std.TransOrd, Subscription.compare_eq]
  infer_instance

instance : Std.LawfulEqOrd Subscription where
  compare_self {a} := by
    rw [Subscription.compare_eq]
    exact Std.ReflOrd.compare_self
  eq_of_compare {a b} h := by
    rw [Subscription.compare_eq] at h
    exact congrArg Subscription.mk (Std.LawfulEqOrd.eq_of_compare h)

theorem Shard.compare_eq (a b : Shard) :
    compare a b = (compare a.owner b.owner).then (compare a.subscription b.subscription) := by
  show instOrdShard.ord a b = _
  simp [instOrdShard.ord]

instance : Std.TransOrd Shard := by
  have : (compare : Shard → Shard → Ordering) =
      compareLex (compareOn Shard.owner) (compareOn Shard.subscription) := by
    funext a b
    exact Shard.compare_eq a b
  rw [Std.TransOrd, this]
  infer_instance

instance : Std.LawfulEqOrd Shard where
  compare_self {a} := by
    rw [Shard.compare_eq, Std.ReflOrd.compare_self, Std.ReflOrd.compare_self]
    rfl
  eq_of_compare {a b} h := by
    rw [Shard.compare_eq, Ordering.then_eq_eq] at h
    obtain ⟨owner, subscription⟩ := a
    obtain rfl : owner = b.owner := Std.LawfulEqOrd.eq_of_compare h.1
    obtain rfl : subscription = b.subscription := Std.LawfulEqOrd.eq_of_compare h.2
    rfl

namespace Ascending

variable {α : Type} [Ord α] {x y : α} {xs : List α}

theorem mem_insert [Std.LawfulEqOrd α] : y ∈ insert x xs ↔ y = x ∨ y ∈ xs := by
  induction xs with
  | nil => simp [insert]
  | cons z zs ih =>
    unfold insert
    cases h : compare x z with
    | lt => exact List.mem_cons
    | eq =>
      obtain rfl : x = z := Std.LawfulEqOrd.eq_of_compare h
      simp
    | gt =>
      show y ∈ z :: insert x zs ↔ _
      rw [List.mem_cons, ih, List.mem_cons, or_left_comm]

/-- The things in the ascending list are those of the list. -/
@[simp] theorem mem_ofList [Std.LawfulEqOrd α] : y ∈ ofList xs ↔ y ∈ xs := by
  induction xs with
  | nil => exact Iff.rfl
  | cons x xs ih =>
    show y ∈ insert x (ofList xs) ↔ _
    rw [mem_insert, ih, List.mem_cons]

theorem ne_of_compare_eq_lt [Std.LawfulEqOrd α] (h : compare x y = .lt) : x ≠ y := by
  rintro rfl
  rw [Std.ReflOrd.compare_self] at h
  cases h

/-- Each thing is less than those behind it. -/
def Sorted (xs : List α) : Prop := xs.Pairwise fun x y => compare x y = .lt

variable [Std.TransOrd α] [Std.LawfulEqOrd α]

theorem Sorted.insert (h : Sorted xs) (x : α) : Sorted (insert x xs) := by
  induction xs with
  | nil => exact List.pairwise_singleton _ x
  | cons z zs ih =>
    obtain ⟨hz, hzs⟩ := List.pairwise_cons.mp h
    unfold Ascending.insert
    cases hx : compare x z with
    | lt =>
      refine List.pairwise_cons.mpr ⟨fun y hy => ?_, h⟩
      rcases List.mem_cons.mp hy with rfl | hy
      · exact hx
      · exact Std.TransCmp.lt_trans hx (hz y hy)
    | eq => exact h
    | gt =>
      refine List.pairwise_cons.mpr ⟨fun y hy => ?_, ih hzs⟩
      rcases mem_insert.mp hy with rfl | hy
      · exact Std.OrientedCmp.lt_of_gt hx
      · exact hz y hy

theorem sorted_ofList (xs : List α) : Sorted (ofList xs) := by
  induction xs with
  | nil => exact List.Pairwise.nil
  | cons x xs ih => exact ih.insert x

/-- An ascending list names nothing twice. -/
theorem nodup_ofList (xs : List α) : (ofList xs).Nodup := by
  exact List.Pairwise.imp ne_of_compare_eq_lt (sorted_ofList xs)

/-- **A search of an ascending list finds what is in it.** -/
theorem Sorted.search_iff (h : Sorted xs) : search x xs = true ↔ x ∈ xs := by
  fun_induction search x xs with
  | case1 xs hd =>
    -- Only an empty list has nothing in its middle.
    have hlength := congrArg List.length hd
    rw [List.length_drop, List.length_nil] at hlength
    rw [List.eq_nil_of_length_eq_zero (show xs.length = 0 by omega)]
    exact ⟨nofun, nofun⟩
  | case2 xs middle above hd hx ih =>
    have hsplit : xs.take (xs.length / 2) ++ middle :: above = xs := hd ▸ List.take_append_drop _ xs
    obtain ⟨hbelow, hrest, -⟩ := List.pairwise_append.mp (hsplit.symm ▸ h)
    rw [ih hbelow]
    refine ⟨List.mem_of_mem_take, fun hm => ?_⟩
    rw [← hsplit, List.mem_append] at hm
    refine hm.resolve_right fun hm => ?_
    rcases List.mem_cons.mp hm with rfl | hm
    · exact ne_of_compare_eq_lt hx rfl
    · exact ne_of_compare_eq_lt (Std.TransCmp.lt_trans hx ((List.pairwise_cons.mp hrest).1 x hm)) rfl
  | case3 xs middle above hd hx =>
    obtain rfl : x = middle := Std.LawfulEqOrd.eq_of_compare hx
    exact ⟨fun _ => List.mem_of_mem_drop (hd ▸ List.mem_cons_self), fun _ => rfl⟩
  | case4 xs middle above hd hx ih =>
    have hsplit : xs.take (xs.length / 2) ++ middle :: above = xs := hd ▸ List.take_append_drop _ xs
    obtain ⟨-, hrest, hcross⟩ := List.pairwise_append.mp (hsplit.symm ▸ h)
    have hlt : compare middle x = .lt := Std.OrientedCmp.lt_of_gt hx
    rw [ih (List.pairwise_cons.mp hrest).2]
    refine ⟨fun hm => List.mem_of_mem_drop (hd ▸ List.mem_cons_of_mem middle hm), fun hm => ?_⟩
    rw [← hsplit, List.mem_append] at hm
    rcases hm with hm | hm
    · have hbelow := hcross x hm middle List.mem_cons_self
      exact absurd rfl (ne_of_compare_eq_lt (Std.TransCmp.lt_trans hbelow hlt))
    · rcases List.mem_cons.mp hm with rfl | hm
      · exact absurd rfl (ne_of_compare_eq_lt hlt)
      · exact hm

end Ascending

end ApnRegistry
