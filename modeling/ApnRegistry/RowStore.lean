import ApnRegistry.Table

/-!
# Row stores

A `RowStore` is whatever keeps the rows for the registry: it answers three calls, each of which may
fail, and each of which may leave the store in another state. A table in memory is one; it answers
every read, and a batch that fails leaves it as it was.
-/

namespace ApnRegistry

/-- The calls that the registry makes on the store of its rows. -/
class RowStore (σ : Type) where
  /-- One row by id. -/
  get : RowId → σ → Except Error (Option Profile) × σ
  /-- The matching rows in order, tombstones included. -/
  query : Predicate → Order → σ → Except Error (List Profile) × σ
  /-- All changes of a batch, or none. -/
  apply : Batch → σ → Except Error Batch.Outcome × σ

instance : RowStore Table where
  get id t := (.ok (t.get? id), t)
  query q order t := (.ok (t.scan q order), t)
  apply batch t :=
    match t.apply batch with
    | .ok (t, outcome) => (.ok outcome, t)
    | .error e => (.error e, t)

end ApnRegistry
