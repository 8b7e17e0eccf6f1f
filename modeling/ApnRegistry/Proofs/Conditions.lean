import ApnRegistry.Registry.State
import Mathlib.Logic.ExistsUnique

/-!
# What conditions mean

Conditions are put together by `and`, `or` and `not`, which leave `always` out and extend lists of parts that
are there already; whatever the parts look like, the result means what the words say. At the leaves a column
is compared with a value. Values of one type stand in one of three orders, and a comparison is told by the
orders that it accepts. Values of different types stand in no order, and so all comparisons fail, "not equal"
too: its negation and that of "equal" are two things.

Results:
* `holds_compare_of_order`, `holds_compare_of_types`: comparisons within a type and across types.
* `holds_equals_iff`, `holds_oneOf_iff`: a column that holds a value, or one of several.
* `holds_foldl_or`: a disjunction that grows over a list.
* `Partition.holds_predicate`, `Selection.holds_ofSubscription`, `Registry.holds_inShards`: the rows of an
  owner, of a subscription and of locked shards.
* `conditions_mean`: all laws of conditions together.
-/

namespace ApnRegistry

namespace Value

variable {a b : Value}

/-- The values are of one type. No value at all is a type of its own. -/
inductive SameType : Value → Value → Prop
  | null : SameType .null .null
  | integer (m n : Int64) : SameType (.integer m) (.integer n)
  | text (s t : String) : SameType (.text s) (.text t)
  | boolean (a b : Bool) : SameType (.boolean a) (.boolean b)

theorem sameType_of_compare? {o : Ordering} (h : a.compare? b = some o) : SameType a b := by
  unfold compare? at h
  split at h
  · exact .null
  · exact .integer _ _
  · exact .text _ _
  · exact .boolean _ _
  · cases h

/-- Values of one type stand in an order. -/
theorem exists_compare?_iff : (∃ o, a.compare? b = some o) ↔ SameType a b := by
  refine ⟨fun ⟨_, h⟩ => sameType_of_compare? h, fun h => ?_⟩
  cases h with
  | null => exact ⟨_, rfl⟩
  | integer m n => exact ⟨_, rfl⟩
  | text s t => exact ⟨_, rfl⟩
  | boolean a b => exact ⟨_, rfl⟩

theorem compare?_of_not_sameType (h : ¬SameType a b) : a.compare? b = none :=
  Option.eq_none_iff_forall_ne_some.mpr fun _ ho => h (sameType_of_compare? ho)

/-- Values that compare as equal are equal. -/
theorem compare?_eq_some_eq : a.compare? b = some .eq ↔ a = b := by
  by_cases h : SameType a b
  · cases h <;> simp [compare?]
  · rw [compare?_of_not_sameType h]
    refine ⟨nofun, fun heq => absurd ?_ h⟩
    subst heq
    cases a with
    | null => exact .null
    | integer n => exact .integer n n
    | text s => exact .text s s
    | boolean a => exact .boolean a a

end Value

namespace Comparison

variable {op : Comparison}

/-- The comparison that accepts this order and no other. -/
def ofOrdering : Ordering → Comparison
  | .lt => lt
  | .eq => eq
  | .gt => gt

theorem ofOrdering_mem (o : Ordering) : ofOrdering o ∈ [lt, eq, gt] := by
  cases o <;> decide

theorem accepts_iff (h : op ∈ [lt, eq, gt]) (o : Ordering) : op.accepts o = true ↔ op = ofOrdering o := by
  cases op with
  | lt => cases o <;> decide
  | eq => cases o <;> decide
  | gt => cases o <;> decide
  | notEq => exact absurd h (by decide)
  | ltEq => exact absurd h (by decide)
  | gtEq => exact absurd h (by decide)

theorem accepts_ltEq (o : Ordering) : ltEq.accepts o = (lt.accepts o || eq.accepts o) := by
  cases o <;> rfl

theorem accepts_gtEq (o : Ordering) : gtEq.accepts o = (gt.accepts o || eq.accepts o) := by
  cases o <;> rfl

theorem accepts_notEq (o : Ordering) : notEq.accepts o = (lt.accepts o || gt.accepts o) := by
  cases o <;> rfl

end Comparison

namespace Predicate

open Value Comparison

variable {row : Profile} {column : Column} {v : Value} {q : Predicate}

/-! ## Comparisons -/

/-- Within a type, a comparison holds if it accepts the order of the two values. -/
theorem holds_compare_of_order {o : Ordering} (h : (row.value column).compare? v = some o)
    (op : Comparison) : (compare column op v).holds row = op.accepts o := by
  rw [holds, h]
  rfl

/-- **Across types** no comparison holds. -/
theorem holds_compare_of_types (h : ¬SameType (row.value column) v) (op : Comparison) :
    (compare column op v).holds row = false := by
  rw [holds, compare?_of_not_sameType h]
  rfl

/-- The comparisons of the column with the value tell in which order the two stand. -/
structure Ordered (column : Column) (v : Value) (row : Profile) : Prop where
  exactlyOne : ∃! op, op ∈ [lt, eq, gt] ∧ (compare column op v).holds row = true
  ltEq : (compare column .ltEq v).holds row = true ↔
    (compare column .lt v).holds row = true ∨ (compare column .eq v).holds row = true
  gtEq : (compare column .gtEq v).holds row = true ↔
    (compare column .gt v).holds row = true ∨ (compare column .eq v).holds row = true
  notEq : (compare column .notEq v).holds row = true ↔
    (compare column .lt v).holds row = true ∨ (compare column .gt v).holds row = true

/-- **Within a type** exactly one of the three orders is the right one. -/
theorem ordered_of_sameType (h : SameType (row.value column) v) : Ordered column v row := by
  obtain ⟨o, ho⟩ := exists_compare?_iff.mpr h
  have hop (op : Comparison) := holds_compare_of_order ho op
  refine ⟨⟨ofOrdering o, ⟨ofOrdering_mem o, ?_⟩, ?_⟩, ?_, ?_, ?_⟩
  · rw [hop, accepts_iff (ofOrdering_mem o)]
  · rintro op ⟨hm, hholds⟩
    rwa [hop, accepts_iff hm] at hholds
  · rw [hop, hop, hop, accepts_ltEq, Bool.or_eq_true]
  · rw [hop, hop, hop, accepts_gtEq, Bool.or_eq_true]
  · rw [hop, hop, hop, accepts_notEq, Bool.or_eq_true]

/-- A column equals a value iff it holds just that. -/
theorem holds_equals_iff : (compare column .eq v).holds row = true ↔ row.value column = v := by
  rw [← compare?_eq_some_eq]
  cases h : (row.value column).compare? v with
  | none => simp [holds, h]
  | some o =>
    rw [holds_compare_of_order h, Option.some.injEq]
    cases o <;> decide

/-- **One of several values** is one that the column equals. -/
theorem holds_oneOf_iff (values : List Value) : (oneOf column values).holds row = true ↔
    ∃ v ∈ values, (compare column .eq v).holds row = true := by
  rw [holds, List.any_eq_true]
  refine exists_congr fun value => and_congr_right fun _ => ?_
  rw [beq_iff_eq, holds_equals_iff, eq_comm]

/-- **A disjunction that grows over a list** holds when its start or one of the conditions does. -/
theorem holds_foldl_or {α : Type} (f : α → Predicate) (xs : List α) (q : Predicate) :
    (xs.foldl (fun q x => q.or (f x)) q).holds row = true ↔
      q.holds row = true ∨ ∃ x ∈ xs, (f x).holds row = true := by
  induction xs generalizing q with
  | nil => simp
  | cons x xs ih =>
    rw [List.foldl_cons, ih, holds_or, Bool.or_eq_true, or_assoc]
    simp only [List.mem_cons, exists_eq_or_imp]

end Predicate

/-! ## Rows of an owner, a subscription, a shard -/

/-- Different owners have different codes. -/
theorem Owner.code_inj {a b : Owner} (h : a.code = b.code) : a = b := by
  cases a <;> cases b
  · rfl
  · exact absurd h (by decide)
  · exact absurd h (by decide)
  · rfl

/-- The column of owners tells them apart. -/
theorem Predicate.holds_equals_owner {owner : Owner} {p : Profile} :
    (equals .ownedBy (.integer owner.code)).holds p = true ↔ p.owner = owner := by
  rw [equals, holds_equals_iff]
  refine ⟨fun h => Owner.code_inj (Value.integer.inj h), fun h => ?_⟩
  rw [← h]
  rfl

/-- The column of subscriptions tells them apart. -/
theorem Predicate.holds_equals_subscription {s : Subscription} {p : Profile} :
    (equals .subscriptionId (.integer s.val.toInt64)).holds p = true ↔ p.subscription = s := by
  rw [equals, holds_equals_iff]
  refine ⟨fun h => congrArg Subscription.mk ?_, fun h => ?_⟩
  · have hval : p.subscription.val.toInt64 = s.val.toInt64 := Value.integer.inj h
    rw [← Int32.toInt32_toInt64 p.subscription.val, hval, Int32.toInt32_toInt64]
  · rw [← h]
    rfl

theorem Predicate.holds_equals_numeric {numeric : String} {p : Profile} :
    (equals .numeric (.text numeric)).holds p = true ↔ p.numeric = numeric := by
  rw [equals, holds_equals_iff]
  exact ⟨Value.text.inj, congrArg Value.text⟩

/-- **The rows of a subscription** are those that carry it, and those that carry the mark of unpinned rows
and its operator. -/
theorem Selection.holds_ofSubscription {s : Subscription} {operator : Option String} {p : Profile} :
    (ofSubscription s operator).holds p = true ↔
      p.subscription = s ∨ p.subscription = .unpinned ∧ operator = some p.numeric := by
  cases operator with
  | none =>
    rw [ofSubscription, Predicate.holds_equals_subscription]
    exact (or_iff_left fun h => nomatch h.2).symm
  | some numeric =>
    rw [ofSubscription, Predicate.holds_or, Predicate.holds_and, Bool.or_eq_true, Bool.and_eq_true,
      Predicate.holds_equals_subscription, Predicate.holds_equals_subscription,
      Predicate.holds_equals_numeric, Option.some.injEq, eq_comm (a := numeric)]

/-- A partition has the rows of its owner. -/
@[simp] theorem Partition.holds_predicate (partition : Partition) (p : Profile) :
    partition.predicate.holds p = true ↔ p.owner = partition.owner :=
  Predicate.holds_equals_owner

namespace Registry

/-- One shard has the rows that carry its owner and its subscription. -/
theorem holds_equals_shard (s : Shard) (p : Profile) :
    ((Predicate.equals .ownedBy (.integer s.owner.code)).and
      (.equals .subscriptionId (.integer s.subscription.val.toInt64))).holds p = true ↔ p.shard = s := by
  rw [Predicate.holds_and, Bool.and_eq_true, Predicate.holds_equals_owner,
    Predicate.holds_equals_subscription]
  constructor
  · rintro ⟨ho, hs⟩
    exact congr (congrArg Shard.mk ho) hs
  · rintro rfl
    exact ⟨rfl, rfl⟩

/-- Locked shards have the rows that live in one of them. -/
theorem holds_inShards (shards : List Shard) (p : Profile) :
    (inShards shards).holds p = true ↔ p.shard ∈ shards := by
  cases shards with
  | nil => simp [inShards]
  | cons s shards =>
    unfold inShards
    simp only [Predicate.holds_foldl_or, holds_equals_shard, exists_eq_right', List.mem_cons]

/-- Rows with equal keys are locked together. -/
theorem holds_inShards_congr {shards : List Shard} {p q : Profile} (h : p.key = q.key) :
    (inShards shards).holds p = (inShards shards).holds q := by
  rw [Bool.eq_iff_iff, holds_inShards, holds_inShards, Profile.shard_eq_of_key_eq h]

theorem holds_selected {setup : Setup} {partition : Partition} {target : Target} {q : Predicate}
    {p : Profile} : (selected setup partition target q).holds p = true ↔
      p.owner = partition.owner ∧ ((targetPredicate setup target).and q).holds p = true := by
  rw [selected, Predicate.holds_and, Predicate.holds_and, Predicate.holds_and, Bool.and_assoc,
    Bool.and_eq_true, Partition.holds_predicate]

end Registry

/-- **A condition in a partition** selects rows of its owner only. -/
theorem Partition.holds_and_predicate (partition : Partition) (q : Predicate) (row : Profile) :
    (partition.predicate.and q).holds row = true ↔ row.owner = partition.owner ∧ q.holds row = true := by
  rw [Predicate.holds_and, Bool.and_eq_true, holds_predicate]

/-- **What conditions mean.** A conjunction, a disjunction and a negation of any conditions hold when the
words say so, and a column that holds one of several values equals one of them. A column and a value of one
type stand in exactly one of three orders, of which the other three comparisons accept two each. If they are
of different types, no comparison holds. No condition leads out of the partition that it is put into, and
nor does what a call makes of it. -/
theorem conditions_mean (p q : Predicate) (row : Profile) (column : Column) (v : Value)
    (values : List Value) (partition : Partition) :
    ((p.and q).holds row = true ↔ p.holds row = true ∧ q.holds row = true) ∧
    ((p.or q).holds row = true ↔ p.holds row = true ∨ q.holds row = true) ∧
    (p.not.holds row = true ↔ ¬p.holds row = true) ∧
    ((Predicate.oneOf column values).holds row = true ↔
      ∃ value ∈ values, (Predicate.compare column .eq value).holds row = true) ∧
    ((row.value column).SameType v → Predicate.Ordered column v row) ∧
    (¬(row.value column).SameType v → ∀ op, (Predicate.compare column op v).holds row = false) ∧
    ((partition.predicate.and q).holds row = true ↔
      row.owner = partition.owner ∧ q.holds row = true) ∧
    ∀ setup target, (Registry.selected setup partition target q).holds row = true →
      row.owner = partition.owner := by
  refine ⟨?_, ?_, ?_, Predicate.holds_oneOf_iff values, Predicate.ordered_of_sameType,
    Predicate.holds_compare_of_types, partition.holds_and_predicate q row,
    fun _ _ h => (Registry.holds_selected.mp h).1⟩
  · rw [Predicate.holds_and, Bool.and_eq_true]
  · rw [Predicate.holds_or, Bool.or_eq_true]
  · rw [Predicate.holds_not, Bool.not_eq_true', Bool.not_eq_true]

/-- The id of a policy row is too large for its column, which then holds nothing: it is neither equal to the
largest integer nor unequal. The row's operator stands below another one. Nothing selects the row from the
partition of the ordinary rows. -/
theorem conditions_mean_large_id :
    let row : Profile :=
      { id := some ⟨Int64.maxValue.toNatClampNeg + 1⟩, numeric := "26201", owner := .dpc }
    let largest (op : Comparison) : Predicate := .compare .id op (.integer Int64.maxValue)
    let other (op : Comparison) : Predicate := .compare .numeric op (.text "26202")
    let anything : Predicate := .anyOf [.always, (largest .eq).not]
    (largest .notEq).holds row = false ∧ (largest .eq).not.holds row = true ∧
      (other .lt).holds row = true ∧ (other .notEq).holds row = true ∧ anything.holds row = true ∧
      ¬((Partition.mk .others none).predicate.and anything).holds row = true := by
  intro row largest other anything
  have hid : ¬(row.value .id).SameType (.integer Int64.maxValue) := nofun
  have hnumeric : (row.value .numeric).SameType (.text "26202") := .text _ _
  have hlt : (other .lt).holds row = true := by decide
  obtain ⟨-, -, hnot, -, -, hnone, -, -⟩ :=
    conditions_mean (largest .eq) .always row .id (.integer Int64.maxValue) [] (.mk .others none)
  obtain ⟨-, -, -, -, hordered, -, hpartition, -⟩ :=
    conditions_mean .always anything row .numeric (.text "26202") [] (.mk .others none)
  refine ⟨hnone hid .notEq, hnot.mpr ?_, hlt, (hordered hnumeric).notEq.mpr (.inl hlt),
    Predicate.holds_anyOf row _, fun h => Owner.noConfusion (hpartition.mp h).1⟩
  rw [hnone hid]
  exact Bool.false_ne_true

end ApnRegistry
