import ApnRegistry.Batch
import ApnRegistry.Predicate
import ApnRegistry.Rows

/-!
# The table

A `Table` holds rows under ids that it hands out itself, from 1 upward, and never hands out twice.
Tombstones are rows like any other here. `apply` carries out a batch change by change on a copy, so
that a failing change leaves the table as it was, the next id included.
-/

namespace ApnRegistry

/-- Stored rows and the id of the next one. -/
structure Table where
  rows : Rows := []
  nextId : Nat := 1
  deriving DecidableEq, Inhabited

namespace Table

/-- The row with the id. -/
def get? (t : Table) (id : RowId) : Option Profile := t.rows.get? id

/-- The number of rows, tombstones included. -/
def size (t : Table) : Nat := t.rows.length

/-- Stores a row under the next id, which takes the place of any id that the profile carries. -/
def push (t : Table) (p : Profile) : RowId × Table :=
  let id : RowId := ⟨t.nextId⟩
  (id, ⟨t.rows.put id { p with id := some id }, t.nextId + 1⟩)

/-- Stores a profile without id as a new row. -/
def insert (t : Table) (p : Profile) : Except Error (RowId × Table) :=
  match p.id with
  | some id => .error (.insertWithId id)
  | none => .ok (t.push p)

/-- Overwrites the row that the profile's id names. -/
def replace (t : Table) (p : Profile) : Except Error Table :=
  match p.id with
  | none => .error .replaceWithoutId
  | some id =>
    if (t.get? id).isSome then .ok { t with rows := t.rows.put id p }
    else .error (.unknownRow id)

/-- Takes the row out, if there is one. -/
def remove (t : Table) (id : RowId) : Table := { t with rows := t.rows.erase id }

/-- Takes the row out, which must be there. -/
def delete (t : Table) (id : RowId) : Except Error Table :=
  if (t.get? id).isSome then .ok (t.remove id) else .error (.unknownRow id)

/-- Stores a profile without id as a new row, and any other in the place of its row. -/
def put (t : Table) (p : Profile) : Except Error (RowId × Table) :=
  match p.id with
  | some id => (t.replace p).map (id, ·)
  | none => t.insert p

/-- Takes all matching rows out and counts them. -/
def deleteMatching (t : Table) (q : Predicate) : Nat × Table :=
  ((t.rows.filter (q.holds ·.2)).length, { t with rows := t.rows.filter (!q.holds ·.2) })

/-- The matching rows, in the given order. -/
def scan (t : Table) (q : Predicate) (order : Order) : List Profile :=
  let rows := t.rows.profiles.filter q.holds
  match order with
  | .idAscending => rows
  | .idDescending => rows.reverse

/-- Carries out one change and notes it in the outcome. -/
def step (t : Table) (done : Batch.Outcome) : Change → Except Error (Table × Batch.Outcome)
  | .insert p => do
    let (id, t) ← t.insert p
    return (t, { done with inserted := done.inserted ++ [id] })
  | .replace p => do
    let t ← t.replace p
    return (t, { done with replaced := done.replaced + 1 })
  | .delete id => do
    let t ← t.delete id
    return (t, { done with deleted := done.deleted + 1 })

/-- Carries out the changes in order, starting from `t` and `done`. -/
def steps (t : Table) (done : Batch.Outcome) : Batch → Except Error (Table × Batch.Outcome)
  | [] => .ok (t, done)
  | change :: changes => do
    let (t, done) ← t.step done change
    t.steps done changes

/-- Carries out the whole batch, or fails and changes nothing. -/
def apply (t : Table) (batch : Batch) : Except Error (Table × Batch.Outcome) :=
  t.steps {} batch

/-- A table of the given profiles, whose own ids do not count. -/
def ofProfiles (ps : List Profile) : Table := ps.foldl (fun t p => (t.push p).2) {}

end Table

end ApnRegistry
