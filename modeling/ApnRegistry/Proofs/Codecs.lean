import ApnRegistry.Codec.Request
import ApnRegistry.Codec.Setup
import ApnRegistry.Proofs.JsonText

/-!
# Values that read back

A codec is right about a value if it reads the document of the value back (`Codec.ReadsBack`). Most codecs
are right about every value (`Codec.Lawful`); those of numbers without bound are not, and neither is that of
predicates, which reads to a bounded depth only. Codecs are put together, and so are their proofs: there is
one rule for each way to build a codec.

Results:
* `Codec.readsBack_integer`, `Codec.lawful_symbol`, and the instances of `Codec.Lawful`.
* `Codec.readsBack_nullable`, `Codec.readsBack_list`: what is built on other codecs.
* `Codec.read_write_predicate`: predicates, as deep as documents are read.
-/

namespace ApnRegistry

namespace Json

@[simp] theorem text?_ofText (s : String) : (Json.ofText s).text? = some s := Quoted.text?_ofText s

@[simp] theorem variant?_ofText (s : String) : (Json.ofText s).variant? = some (s, none) := by
  rw [Json.ofText, variant?, Quoted.text?_ofText]
  rfl

@[simp] theorem variant?_ofVariant (name : String) (payload : Json) :
    (Json.ofVariant name payload).variant? = some (name, some payload) := by
  show (Quoted.ofText name).text?.map _ = _
  rw [Quoted.text?_ofText]
  rfl

theorem isWritten_ofText (s : String) : (Json.ofText s).IsWritten := by
  rw [Json.ofText, IsWritten]
  exact Quoted.closes_ofText s

theorem isWritten_ofInt (n : Int) : (Json.ofInt n).IsWritten := by
  rw [Json.ofInt, IsWritten]
  trivial

theorem areItemsWritten_iff {items : List Json} :
    AreItemsWritten items ↔ ∀ item ∈ items, item.IsWritten := by
  induction items with
  | nil => simp [AreItemsWritten]
  | cons item items ih => rw [AreItemsWritten, ih, List.forall_mem_cons]

theorem isWritten_arr {items : List Json} (h : ∀ item ∈ items, item.IsWritten) :
    (Json.arr items).IsWritten := by
  rw [IsWritten]
  exact areItemsWritten_iff.mpr h

theorem isWritten_ofMembers {members : List (String × Json)} (h : ∀ m ∈ members, m.2.IsWritten) :
    (Json.ofMembers members).IsWritten := by
  rw [Json.ofMembers, IsWritten]
  induction members with
  | nil => simp [AreMembersWritten]
  | cons m members ih =>
    rw [List.forall_mem_cons] at h
    rw [List.map_cons, AreMembersWritten]
    exact ⟨Quoted.closes_ofText m.1, h.1, ih h.2⟩

theorem isWritten_ofVariant {name : String} {payload : Json} (h : payload.IsWritten) :
    (Json.ofVariant name payload).IsWritten := isWritten_ofMembers (by simpa using h)

@[simp] theorem depth_ofVariant (name : String) (payload : Json) :
    (Json.ofVariant name payload).depth = payload.depth + 1 := by
  simp [Json.ofVariant, Json.ofMembers, depth, depthOfMembers]

end Json

namespace Codec

variable {α β : Type} {c : Codec α} {a : α}

/-- The document of the value is read back. -/
def ReadsBack (c : Codec α) (a : α) : Prop := c.read (c.write a) = some a

/-- Values that are read back are told apart by their documents. -/
theorem ReadsBack.eq_of_write_eq {b : α} (ha : c.ReadsBack a) (hb : c.ReadsBack b)
    (h : c.write a = c.write b) : a = b :=
  Option.some.inj (ha.symm.trans ((congrArg c.read h).trans hb))

/-- Every value is read back, none is written like a missing one, and the documents parse when they are
printed. -/
class Lawful (c : Codec α) : Prop where
  readsBack : ∀ a, c.ReadsBack a
  write_ne : ∀ a, c.write a ≠ .null
  isWritten : ∀ a, (c.write a).IsWritten

/-! ## Scalars -/

instance : Lawful text where
  readsBack := Json.text?_ofText
  write_ne := nofun
  isWritten := Json.isWritten_ofText

instance : Lawful boolean where
  readsBack := fun _ => rfl
  write_ne := nofun
  isWritten := fun b => by
    show (Json.bool b).IsWritten
    rw [Json.IsWritten]
    trivial

/-- An integer within the bounds is read back. -/
theorem readsBack_integer {lo hi : Int} {toInt : α → Int} {ofInt : Int → α}
    (hbounds : lo ≤ toInt a ∧ toInt a ≤ hi) (hback : ofInt (toInt a) = a) :
    (integer lo hi toInt ofInt).ReadsBack a := by
  show (if lo ≤ toInt a ∧ toInt a ≤ hi then some (ofInt (toInt a)) else none) = some a
  rw [if_pos hbounds, hback]

instance : Lawful uint16 where
  readsBack := fun n =>
    readsBack_integer (by have := n.toNat_lt; simp only [UInt16.size]; omega) (by simp)
  write_ne := nofun
  isWritten := fun _ => Json.isWritten_ofInt _

instance : Lawful uint32 where
  readsBack := fun n =>
    readsBack_integer (by have := n.toNat_lt; simp only [UInt32.size]; omega) (by simp)
  write_ne := nofun
  isWritten := fun _ => Json.isWritten_ofInt _

instance : Lawful int32 where
  readsBack := fun n => readsBack_integer ⟨n.minValue_le_toInt, n.toInt_le⟩ (by simp)
  write_ne := nofun
  isWritten := fun _ => Json.isWritten_ofInt _

instance : Lawful int64 where
  readsBack := fun n => readsBack_integer ⟨n.minValue_le_toInt, n.toInt_le⟩ (by simp)
  write_ne := nofun
  isWritten := fun _ => Json.isWritten_ofInt _

theorem readsBack_natural {n : Nat} (h : n < UInt64.size) : natural.ReadsBack n :=
  readsBack_integer (by omega) (by simp)

/-- An id is read back if a word of 64 bits holds it. -/
theorem readsBack_rowId {id : RowId} (h : id.val < UInt64.size) : rowId.ReadsBack id := by
  show (natural.read (natural.write id.val)).map _ = some id
  rw [show natural.read (natural.write id.val) = some id.val from readsBack_natural h]
  rfl

instance : Lawful subscription where
  readsBack := fun s => by
    show (int32.read (int32.write s.val)).map _ = some s
    rw [show int32.read (int32.write s.val) = some s.val from Lawful.readsBack s.val]
    rfl
  write_ne := nofun
  isWritten := fun _ => Json.isWritten_ofInt _

/-! ## Variants without payload -/

/-- Variants are read back if their names tell them apart. -/
theorem lawful_symbol {all : List α} {name : α → String}
    (h : ∀ a, all.find? (name · == name a) = some a) : Lawful (symbol all name) where
  readsBack := fun a => by
    rw [ReadsBack, symbol]
    dsimp only
    rw [Json.variant?_ofText]
    exact h a
  write_ne := nofun
  isWritten := fun _ => Json.isWritten_ofText _

instance : Lawful owner := lawful_symbol fun o => by cases o <;> rfl

instance : Lawful editStatus := lawful_symbol fun status => by cases status <;> rfl

instance : Lawful mvnoKind := lawful_symbol fun kind => by cases kind <;> rfl

instance : Lawful column := lawful_symbol fun column => by cases column <;> rfl

instance : Lawful comparison := lawful_symbol fun op => by cases op <;> rfl

instance : Lawful scope := lawful_symbol fun s => by cases s <;> rfl

instance : Lawful permission := lawful_symbol fun p => by cases p <;> rfl

/-! ## Codecs on top of others -/

/-- A value that may be missing is read back if its document is not the one of a missing value. -/
theorem readsBack_nullable {o : Option α} (h : ∀ a, o = some a → c.ReadsBack a)
    (hnull : ∀ a, c.write a ≠ .null) : c.nullable.ReadsBack o := by
  cases o with
  | none => rfl
  | some a =>
    have ha : c.read (c.write a) = some a := h a rfl
    show c.nullable.read (c.write a) = _
    rw [nullable]
    dsimp only
    split
    · rename_i hw
      exact absurd hw (hnull a)
    · rw [ha]
      rfl

theorem isWritten_nullable {o : Option α} (h : ∀ a, (c.write a).IsWritten) :
    (c.nullable.write o).IsWritten := by
  cases o with
  | none =>
    show Json.null.IsWritten
    rw [Json.IsWritten]
    trivial
  | some a => exact h a

theorem isWritten_list {as : List α} (h : ∀ a, (c.write a).IsWritten) :
    (c.list.write as).IsWritten := by
  refine Json.isWritten_arr fun j hj => ?_
  obtain ⟨a, -, rfl⟩ := List.mem_map.mp hj
  exact h a

theorem Lawful.nullable [Lawful c] (o : Option α) : c.nullable.ReadsBack o :=
  readsBack_nullable (fun a _ => Lawful.readsBack a) Lawful.write_ne

theorem readsBack_list {as : List α} (h : ∀ a ∈ as, c.ReadsBack a) : c.list.ReadsBack as := by
  show (as.map c.write).mapM c.read = some as
  induction as with
  | nil => rfl
  | cons a as ih =>
    have ha : c.read (c.write a) = some a := h a List.mem_cons_self
    rw [List.map_cons, List.mapM_cons, ha, ih fun b hb => h b (List.mem_cons_of_mem a hb)]
    rfl

theorem Lawful.list [Lawful c] (as : List α) : c.list.ReadsBack as :=
  readsBack_list fun a _ => Lawful.readsBack a

/-! ## Values and predicates -/

instance : Lawful value where
  readsBack := fun v => by
    cases v with
    | null => simp [ReadsBack, value, Json.isUnit]
    | integer n =>
      have h : int64.read (int64.write n) = some n := Lawful.readsBack n
      simp [ReadsBack, value, h]
    | text s =>
      have h : text.read (text.write s) = some s := Lawful.readsBack s
      simp [ReadsBack, value, h]
    | boolean b =>
      have h : boolean.read (boolean.write b) = some b := Lawful.readsBack b
      simp [ReadsBack, value, h]
  write_ne := fun v => by cases v <;> nofun
  isWritten := fun v => by
    cases v with
    | null => exact Json.isWritten_ofText _
    | integer n => exact Json.isWritten_ofVariant (Lawful.isWritten n)
    | text s => exact Json.isWritten_ofVariant (Lawful.isWritten s)
    | boolean b => exact Json.isWritten_ofVariant (Lawful.isWritten b)

mutual

/-- A predicate is read back with more fuel than its document is deep. -/
theorem readPredicate_writePredicate : ∀ (fuel : Nat) (q : Predicate),
    (writePredicate q).depth < fuel → readPredicate fuel (writePredicate q) = some q
  | 0, _, h => absurd h (Nat.not_lt_zero _)
  | _ + 1, .always, _ => by simp [writePredicate, readPredicate, Json.isUnit]
  | _ + 1, .compare c op v, _ => by
    have hc : column.read (column.write c) = some c := Lawful.readsBack c
    have hop : comparison.read (comparison.write op) = some op := Lawful.readsBack op
    have hv : value.read (value.write v) = some v := Lawful.readsBack v
    simp [writePredicate, readPredicate, hc, hop, hv]
  | _ + 1, .oneOf c vs, _ => by
    have hc : column.read (column.write c) = some c := Lawful.readsBack c
    have hvs : value.list.read (value.list.write vs) = some vs := Lawful.list vs
    simp [writePredicate, readPredicate, hc, hvs]
  | _ + 1, .blank c, _ => by
    have hc : column.read (column.write c) = some c := Lawful.readsBack c
    simp [writePredicate, readPredicate, hc]
  | fuel + 1, .allOf parts, h => by
    rw [writePredicate, Json.depth_ofVariant, Json.depth] at h
    have hparts := mapM_readPredicate_writePredicates fuel parts (by omega)
    simp [writePredicate, readPredicate, hparts]
  | fuel + 1, .anyOf parts, h => by
    rw [writePredicate, Json.depth_ofVariant, Json.depth] at h
    have hparts := mapM_readPredicate_writePredicates fuel parts (by omega)
    simp [writePredicate, readPredicate, hparts]
  | fuel + 1, .inverse part, h => by
    rw [writePredicate, Json.depth_ofVariant] at h
    have hpart := readPredicate_writePredicate fuel part (by omega)
    simp [writePredicate, readPredicate, hpart]

theorem mapM_readPredicate_writePredicates : ∀ (fuel : Nat) (parts : List Predicate),
    Json.depthOfItems (writePredicates parts) < fuel →
    (writePredicates parts).mapM (readPredicate fuel) = some parts
  | _, [], _ => rfl
  | fuel, part :: parts, h => by
    rw [writePredicates, Json.depthOfItems, Nat.max_lt] at h
    rw [writePredicates, List.mapM_cons, readPredicate_writePredicate fuel part h.1,
      mapM_readPredicate_writePredicates fuel parts h.2]
    rfl

end

/-- **A predicate is read back iff its document is not too deep.** -/
theorem read_write_predicate (q : Predicate) : predicate.read (predicate.write q) =
    if (predicate.write q).depth ≤ Json.maxDepth then some q else none := by
  show (if (writePredicate q).depth ≤ Json.maxDepth then
    readPredicate (Json.maxDepth + 1) (writePredicate q) else none) = _
  split
  · rename_i h
    rw [readPredicate_writePredicate _ q (Nat.lt_succ_of_le h)]
    exact (if_pos h).symm
  · rename_i h
    exact (if_neg h).symm

mutual

/-- The document of a predicate parses when it is printed. -/
theorem isWritten_writePredicate : ∀ q : Predicate, (writePredicate q).IsWritten
  | .always => by
    rw [writePredicate]
    exact Json.isWritten_ofText _
  | .compare c op v => by
    rw [writePredicate]
    refine Json.isWritten_ofVariant (Json.isWritten_arr ?_)
    simp only [List.forall_mem_cons]
    exact ⟨Lawful.isWritten c, Lawful.isWritten op, Lawful.isWritten v, nofun⟩
  | .oneOf c vs => by
    rw [writePredicate]
    refine Json.isWritten_ofVariant (Json.isWritten_arr ?_)
    simp only [List.forall_mem_cons]
    exact ⟨Lawful.isWritten c, isWritten_list Lawful.isWritten, nofun⟩
  | .blank c => by
    rw [writePredicate]
    exact Json.isWritten_ofVariant (Lawful.isWritten c)
  | .allOf parts => by
    rw [writePredicate]
    exact Json.isWritten_ofVariant (Json.isWritten_arr (isWritten_of_mem_writePredicates parts))
  | .anyOf parts => by
    rw [writePredicate]
    exact Json.isWritten_ofVariant (Json.isWritten_arr (isWritten_of_mem_writePredicates parts))
  | .inverse part => by
    rw [writePredicate]
    exact Json.isWritten_ofVariant (isWritten_writePredicate part)

theorem isWritten_of_mem_writePredicates : ∀ (parts : List Predicate),
    ∀ j ∈ writePredicates parts, j.IsWritten
  | [] => by simp [writePredicates]
  | part :: parts => by
    rw [writePredicates, List.forall_mem_cons]
    exact ⟨isWritten_writePredicate part, isWritten_of_mem_writePredicates parts⟩

end

end Codec

end ApnRegistry
