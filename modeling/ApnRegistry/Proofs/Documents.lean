import ApnRegistry.Proofs.Codecs
import Mathlib.Data.List.Nodup

/-!
# Documents with members left out, moved or added

A structure with defaults is read field by field, each from the member of its name. So it does not matter
in which order the members stand, and other names are not looked at (`Json.Variation`). A field whose
member is missing keeps its default. That the fields together make up the structure again is said by
`Codec.Fills`, along the list of fields.

Results:
* `Codec.read_of_variation`: structures with defaults.
* `Codec.read_target_of_perm`: targets.
* `documents_read_back`: the documents of the public types, and their texts.
-/

namespace ApnRegistry

namespace Json

/-- The members of an object. -/
def members : Json → List (Quoted × Json)
  | obj members => members
  | _ => []

/-- The members are those that were written, in any order. Some that are as in the default may be left out,
and others may be there under names of their own. -/
def Variation (written default members : List (Quoted × Json)) : Prop :=
  ∃ (keep : Quoted → Bool) (others : List (Quoted × Json)),
    members.Perm (written.filter (keep ·.1) ++ others) ∧
    (∀ e ∈ written, keep e.1 = false → e ∈ default) ∧
    ∀ e ∈ others, ∃ name, e.1.text? = some name ∧ ∀ w ∈ written, w.1.text? ≠ some name

variable {name : String} {members members' : List (Quoted × Json)}

/-- All members may be kept. -/
theorem Variation.of_perm {written default others : List (Quoted × Json)}
    (h : members.Perm (written ++ others))
    (hothers : ∀ e ∈ others, ∃ name, e.1.text? = some name ∧ ∀ w ∈ written, w.1.text? ≠ some name) :
    Variation written default members :=
  ⟨fun _ => true, others, by rwa [List.filter_true], fun _ _ => nofun, hothers⟩

theorem valuesOf_perm (h : members.Perm members') :
    (valuesOf name members).Perm (valuesOf name members') := h.filterMap _

theorem valuesOf_append : valuesOf name (members ++ members') =
    valuesOf name members ++ valuesOf name members' := List.filterMap_append

theorem valuesOf_eq_nil (h : ∀ e ∈ members, e.1.text? ≠ some name) : valuesOf name members = [] := by
  refine List.filterMap_eq_nil_iff.mpr fun e he => ?_
  exact if_neg (h e he)

theorem valuesOf_cons_self (name : String) (value : Json) (members : List (Quoted × Json)) :
    valuesOf name ((.ofText name, value) :: members) = value :: valuesOf name members :=
  List.filterMap_cons_some (if_pos (Quoted.text?_ofText name))

theorem valuesOf_cons_of_ne {other : String} (h : other ≠ name) (value : Json)
    (members : List (Quoted × Json)) :
    valuesOf name ((.ofText other, value) :: members) = valuesOf name members := by
  refine List.filterMap_cons_none (if_neg ?_)
  rw [Quoted.text?_ofText]
  exact fun heq => h (Option.some.inj heq)

theorem haveNames_iff : haveNames members = true ↔ ∀ e ∈ members, e.1.text?.isSome = true :=
  List.all_eq_true

end Json

open Json

namespace Codec

variable {S : Type} {fields : List (Member S)} {x d s : S} {m : Member S}
  {members : List (Quoted × Json)}

/-! ## Structures with defaults -/

/-- The member of one field. -/
def entry (x : S) (m : Member S) : Quoted × Json := (.ofText m.name, m.write x)

theorem write_structured (fields : List (Member S)) (d x : S) :
    (structured fields d).write x = .obj (fields.map (entry x)) := by
  show Json.obj _ = _
  rw [List.map_map]
  rfl

/-- Of the members that are kept, a field finds its own one. -/
theorem valuesOf_kept (keep : Quoted → Bool) (hm : m ∈ fields)
    (hnames : (fields.map Member.name).Nodup) :
    valuesOf m.name ((fields.map (entry x)).filter (keep ·.1)) =
      if keep (.ofText m.name) then [m.write x] else [] := by
  induction fields with
  | nil => cases hm
  | cons field fields ih =>
    rw [List.map_cons, List.nodup_cons] at hnames
    rcases List.mem_cons.mp hm with rfl | hm
    · -- No other field has this name.
      have hrest : valuesOf m.name ((fields.map (entry x)).filter (keep ·.1)) = [] := by
        refine valuesOf_eq_nil fun e he htext => hnames.1 ?_
        obtain ⟨other, hother, rfl⟩ := List.mem_map.mp (List.mem_filter.mp he).1
        rw [entry, Quoted.text?_ofText] at htext
        exact List.mem_map.mpr ⟨other, hother, Option.some.inj htext⟩
      rw [List.map_cons, List.filter_cons]
      split
      · rename_i hkeep
        rw [entry, valuesOf_cons_self, hrest]
        exact (if_pos hkeep).symm
      · rename_i hkeep
        rw [hrest]
        exact (if_neg hkeep).symm
    · have hne : field.name ≠ m.name := fun h => hnames.1 (h ▸ List.mem_map_of_mem hm)
      rw [List.map_cons, List.filter_cons]
      split
      · rw [entry, valuesOf_cons_of_ne hne, ih hm hnames.2]
      · exact ih hm hnames.2

/-- What a field finds in a variation of the members: its own value, or nothing if that is the one of the
default. -/
theorem valuesOf_variation (hnames : (fields.map Member.name).Nodup) (hm : m ∈ fields)
    (h : Variation (fields.map (entry x)) (fields.map (entry d)) members) :
    valuesOf m.name members = [m.write x] ∨
      valuesOf m.name members = [] ∧ m.write x = m.write d := by
  obtain ⟨keep, others, hperm, hdefault, hothers⟩ := h
  have hself : entry x m ∈ fields.map (entry x) := List.mem_map_of_mem hm
  have hnone : valuesOf m.name others = [] := by
    refine valuesOf_eq_nil fun e he htext => ?_
    obtain ⟨name, hname, hnew⟩ := hothers e he
    obtain rfl : name = m.name := Option.some.inj (hname.symm.trans htext)
    exact hnew _ hself (Quoted.text?_ofText m.name)
  have hfound : (valuesOf m.name members).Perm (valuesOf m.name _) := valuesOf_perm hperm
  rw [valuesOf_append, hnone, List.append_nil, valuesOf_kept keep hm hnames] at hfound
  split at hfound
  · exact Or.inl (List.perm_singleton.mp hfound)
  · rename_i hkeep
    refine Or.inr ⟨List.perm_nil.mp hfound, ?_⟩
    obtain ⟨other, hother, heq⟩ := List.mem_map.mp (hdefault _ hself (Bool.eq_false_iff.mpr hkeep))
    obtain ⟨hname, hwrite⟩ := Prod.mk.inj heq
    obtain rfl : other = m :=
      List.inj_on_of_nodup_map hnames hother hm (Quoted.ofText_inj.mp hname)
    exact hwrite.symm

/-- The fields make `x` of `s`, one after the other. Each of them is read back for `x` and for the default
`d`, also from a text. At its turn it still has the default value, and putting that in again changes
nothing. -/
inductive Fills (x d : S) : List (Member S) → S → Prop
  | nil : Fills x d [] x
  | cons {α : Type} {name : String} {c : Codec α} {get : S → α} {set : α → S → S}
      {fields : List (Member S)} {s : S} (new : c.ReadsBack (get x)) (old : c.ReadsBack (get d))
      (written : (c.write (get x)).IsWritten) (fresh : get s = get d) (same : set (get s) s = s)
      (rest : Fills x d fields (set (get x) s)) : Fills x d (.of name c get set :: fields) s

/-- **Fields are read one after the other** until the structure is there. -/
theorem foldlM_readMember (h : Fills x d fields s)
    (hmembers : ∀ m ∈ fields, valuesOf m.name members = [m.write x] ∨
      valuesOf m.name members = [] ∧ m.write x = m.write d) :
    fields.foldlM (readMember members) s = some x := by
  induction h with
  | nil => rfl
  | @cons α name c get set fields s new old written fresh same rest ih =>
    have hstep : readMember members s (.of name c get set) = some (set (get x) s) := by
      rw [readMember]
      rcases hmembers _ List.mem_cons_self with hfound | ⟨hmissing, hwrite⟩
      · rw [hfound]
        show (c.read (c.write (get x))).map _ = _
        rw [show c.read (c.write (get x)) = some (get x) from new]
        rfl
      · rw [hmissing, new.eq_of_write_eq old hwrite, ← fresh, same]
    rw [List.foldlM_cons, hstep]
    exact ih fun m hm => hmembers m (List.mem_cons_of_mem _ hm)

/-- **A structure with defaults is read from every variation of its document.** -/
theorem read_of_variation (h : Fills x d fields d) (hnames : (fields.map Member.name).Nodup)
    (hmembers : Variation ((structured fields d).write x).members ((structured fields d).write d).members
      members) : (structured fields d).read (.obj members) = some x := by
  rw [write_structured, write_structured] at hmembers
  have hreadable : haveNames members = true := by
    obtain ⟨keep, others, hperm, -, hothers⟩ := hmembers
    refine haveNames_iff.mpr fun e he => ?_
    rcases List.mem_append.mp (hperm.mem_iff.mp he) with he | he
    · obtain ⟨m, -, rfl⟩ := List.mem_map.mp (List.mem_filter.mp he).1
      rw [entry, Quoted.text?_ofText]
      rfl
    · obtain ⟨name, hname, -⟩ := hothers e he
      rw [hname]
      rfl
  show (if haveNames members = true then fields.foldlM (readMember members) d else none) = _
  rw [if_pos hreadable]
  exact foldlM_readMember h fun m hm => valuesOf_variation hnames hm hmembers

/-- The document of a structure parses when it is printed. -/
theorem isWritten_structured (h : Fills x d fields s) : ((structured fields d).write x).IsWritten := by
  refine isWritten_ofMembers (List.forall_mem_map.mpr fun field hfield => ?_)
  induction h with
  | nil => cases hfield
  | cons new old written fresh same rest ih =>
    rcases List.mem_cons.mp hfield with rfl | hfield
    · exact written
    · exact ih hfield

section Fields

variable {α : Type} {name : String} {c : Codec α} [Lawful c]

/-- The next field has a lawful codec. -/
theorem Fills.field {get : S → α} {set : α → S → S} (fresh : get s = get d) (same : set (get s) s = s)
    (rest : Fills x d fields (set (get x) s)) : Fills x d (.of name c get set :: fields) s :=
  .cons (Lawful.readsBack _) (Lawful.readsBack _) (Lawful.isWritten _) fresh same rest

/-- The next field has one as well, but its value may be missing. -/
theorem Fills.nullable {get : S → Option α} {set : Option α → S → S} (fresh : get s = get d)
    (same : set (get s) s = s) (rest : Fills x d fields (set (get x) s)) :
    Fills x d (.of name c.nullable get set :: fields) s :=
  .cons (Lawful.nullable _) (Lawful.nullable _) (isWritten_nullable Lawful.isWritten) fresh same rest

end Fields

theorem fills_profile (p : Profile) (hid : ∀ id, p.id = some id → id.val < UInt64.size) :
    Fills p {} profileFields {} := by
  refine .cons (readsBack_nullable (fun id h => readsBack_rowId (hid id h)) nofun) rfl
    (isWritten_nullable fun _ => isWritten_ofInt _) rfl rfl ?_
  repeat' first
    | exact .nil
    | refine .field rfl rfl ?_
    | refine .nullable rfl rfl ?_

theorem fills_update (u : Update) : Fills u {} updateFields {} := by
  repeat' first
    | exact .nil
    | refine .nullable rfl rfl ?_

theorem fills_sim (s : Sim) : Fills s {} simFields {} := by
  repeat' first
    | exact .nil
    | refine .nullable rfl rfl ?_

/-! ## Callers and targets -/

section Required

variable {α : Type} {name : String} {c : Codec α} {a : α}

theorem required_of_valuesOf (h : valuesOf name members = [c.write a]) (ha : c.ReadsBack a) :
    required members name c = some a := by
  rw [required, h]
  exact ha

theorem optional_of_valuesOf {o : Option α} (h : valuesOf name members = [c.nullable.write o])
    (ho : c.nullable.ReadsBack o) : optional members name c = some o := by
  rw [optional, h]
  exact ho

end Required

theorem readsBack_caller (who : Caller) : caller.ReadsBack who := by
  let members := (caller.write who).members
  have huid : valuesOf "uid" members = [uint32.write who.uid] := rfl
  have hpermissions : valuesOf "permissions" members = [permission.list.write who.permissions] := rfl
  have hread : caller.read (.obj members) = (required members "uid" uint32).bind fun uid =>
      (required members "permissions" permission.list).bind fun permissions =>
        some { uid := uid, permissions := permissions } := rfl
  show caller.read (.obj members) = some who
  rw [hread, required_of_valuesOf huid (Lawful.readsBack _),
    required_of_valuesOf hpermissions (Lawful.list _)]
  rfl

end Codec

namespace Json

variable {members : List (Quoted × Json)}

theorem areMembersReadable_iff : areMembersReadable members = true ↔
    ∀ e ∈ members, e.1.text?.isSome = true ∧ e.2.isReadable = true := by
  induction members with
  | nil => simp [areMembersReadable]
  | cons e members ih =>
    rw [areMembersReadable, Bool.and_eq_true, Bool.and_eq_true, ih, List.forall_mem_cons]

theorem depthOfMembers_le_iff {n : Nat} : depthOfMembers members ≤ n ↔
    ∀ e ∈ members, e.2.depth ≤ n := by
  induction members with
  | nil => simp [depthOfMembers]
  | cons e members ih => rw [depthOfMembers, Nat.max_le, ih, List.forall_mem_cons]

end Json

namespace Codec

instance : Lawful targetScope where
  readsBack := fun s => Lawful.readsBack (c := scope) s
  write_ne := nofun
  isWritten := fun _ => isWritten_ofText _

/-- The document needs no bounds but those of numbers: it is a text, a number of at most 64 bits, or null. -/
def IsScalar (j : Json) : Prop := j.isReadable = true ∧ j.depth = 0

theorem isScalar_ofText (s : String) : IsScalar (.ofText s) := by
  refine ⟨?_, rfl⟩
  rw [Json.ofText, isReadable, Quoted.text?_ofText]
  rfl

theorem isScalar_ofInt {n : Int} (h : n.natAbs < UInt64.size) : IsScalar (.ofInt n) :=
  ⟨Number.isFinite_int h, rfl⟩

theorem isScalar_subscription (sub : Option Subscription) :
    IsScalar (subscription.nullable.write sub) := by
  cases sub with
  | none => exact ⟨rfl, rfl⟩
  | some sub =>
    have hlow := sub.val.minValue_le_toInt
    have hhigh := sub.val.toInt_le
    refine isScalar_ofInt ?_
    simp only [Int32.toInt_minValue, Int32.toInt_maxValue, UInt64.size] at hlow hhigh ⊢
    omega

/-- The names of a target's members are texts, and its values scalars. -/
theorem isScalar_of_mem_target (t : Target) (hid : ∀ s id, t = .row s id → id.val < UInt64.size) :
    ∀ e ∈ (target.write t).members, e.1.text?.isSome = true ∧ IsScalar e.2 := by
  have hname (s : String) : (Quoted.ofText s).text?.isSome = true := by
    rw [Quoted.text?_ofText]
    rfl
  cases t with
  | table s sub =>
    have hmembers : (target.write (.table s sub)).members = [(.ofText "target", .ofText "table"),
      (.ofText "scope", .ofText s.name),
      (.ofText "subscription", subscription.nullable.write sub)] := rfl
    simp only [hmembers, List.forall_mem_cons, hname, true_and]
    exact ⟨isScalar_ofText _, isScalar_ofText _, isScalar_subscription sub, List.forall_mem_nil _⟩
  | row s id =>
    have hmembers : (target.write (.row s id)).members = [(.ofText "target", .ofText "row"),
      (.ofText "scope", .ofText s.name), (.ofText "id", .ofInt id.val)] := rfl
    simp only [hmembers, List.forall_mem_cons, hname, true_and]
    exact ⟨isScalar_ofText _, isScalar_ofText _, isScalar_ofInt (hid s id rfl), List.forall_mem_nil _⟩

/-- The members of a target decide, once the whole document was found readable. -/
theorem read_target_of_isScalar {members : List (Json.Quoted × Json)}
    (h : ∀ e ∈ members, e.1.text?.isSome = true ∧ IsScalar e.2) :
    target.read (.obj members) = readTargetMembers members := by
  have hreadable : (Json.obj members).isReadable = true := by
    rw [isReadable, areMembersReadable_iff]
    exact fun e he => ⟨(h e he).1, (h e he).2.1⟩
  have hdepth : (Json.obj members).depth ≤ maxDepth := by
    have hmembers : depthOfMembers members ≤ 0 :=
      depthOfMembers_le_iff.mpr fun e he => Nat.le_of_eq (h e he).2.2
    rw [depth]
    exact Nat.le_trans (Nat.succ_le_succ hmembers) (by decide)
  show (if (Json.obj members).isReadable && decide ((Json.obj members).depth ≤ maxDepth) then
    readTargetMembers members else none) = _
  rw [hreadable, decide_eq_true hdepth]
  rfl

/-- **A target is read wherever its members stand.** -/
theorem read_target_of_perm {members : List (Json.Quoted × Json)} (t : Target)
    (hid : ∀ s id, t = .row s id → id.val < UInt64.size)
    (h : members.Perm (target.write t).members) : target.read (.obj members) = some t := by
  have hvalues {name : String} {v : Json} (hv : valuesOf name (target.write t).members = [v]) :
      valuesOf name members = [v] := List.perm_singleton.mp (hv ▸ valuesOf_perm h)
  rw [read_target_of_isScalar fun e he => isScalar_of_mem_target t hid e (h.mem_iff.mp he)]
  cases t with
  | table s sub =>
    have htag : valuesOf "target" members = [text.write "table"] := hvalues rfl
    have hscope : valuesOf "scope" members = [targetScope.write s] := hvalues rfl
    have hsub : valuesOf "subscription" members = [subscription.nullable.write sub] := hvalues rfl
    rw [readTargetMembers, required_of_valuesOf htag (Lawful.readsBack _),
      required_of_valuesOf hscope (Lawful.readsBack _), optional_of_valuesOf hsub (Lawful.nullable _)]
    rfl
  | row s id =>
    have htag : valuesOf "target" members = [text.write "row"] := hvalues rfl
    have hscope : valuesOf "scope" members = [targetScope.write s] := hvalues rfl
    have hrow : valuesOf "id" members = [rowId.write id] := hvalues rfl
    rw [readTargetMembers, required_of_valuesOf htag (Lawful.readsBack _),
      required_of_valuesOf hscope (Lawful.readsBack _),
      required_of_valuesOf hrow (readsBack_rowId (hid s id rfl))]
    rfl

theorem isWritten_caller (who : Caller) : (caller.write who).IsWritten := by
  refine isWritten_ofMembers ?_
  simp only [List.forall_mem_cons]
  exact ⟨Lawful.isWritten who.uid, isWritten_list Lawful.isWritten, List.forall_mem_nil _⟩

theorem isWritten_target (t : Target) : (target.write t).IsWritten := by
  cases t with
  | table s sub =>
    refine isWritten_ofMembers ?_
    simp only [List.forall_mem_cons]
    exact ⟨isWritten_ofText _, Lawful.isWritten s, isWritten_nullable Lawful.isWritten,
      List.forall_mem_nil _⟩
  | row s id =>
    refine isWritten_ofMembers ?_
    simp only [List.forall_mem_cons]
    exact ⟨isWritten_ofText _, Lawful.isWritten s, isWritten_ofInt _, List.forall_mem_nil _⟩

/-! ## The public types -/

section Public

variable {α : Type}

/-- The document is decoded to the value, and so is every text of the document. -/
def Decodes (c : Codec α) (j : Json) (a : α) : Prop :=
  c.read j = some a ∧ ∀ text, parse? text = some j → c.parse text = .ok a

/-- The value is decoded from its document, and from the document's text. -/
def RoundTrips (c : Codec α) (a : α) : Prop :=
  c.Decodes (c.write a) a ∧ c.parse (c.write a).compact = .ok a

/-- The value is decoded from its document, and also when members of it are missing that are as in `d`, stand
elsewhere or have unknown ones beside them. -/
def Tolerates (c : Codec α) (d a : α) : Prop :=
  c.RoundTrips a ∧ ∀ members, Variation (c.write a).members (c.write d).members members →
    c.Decodes (.obj members) a

variable {c : Codec α} {a : α} {j : Json}

theorem decodes_of_read (h : c.read j = some a) : c.Decodes j a := by
  refine ⟨h, fun text htext => ?_⟩
  rw [Codec.parse, htext, Option.bind_some, h]

theorem ReadsBack.roundTrips (h : c.ReadsBack a) (hw : (c.write a).IsWritten) : c.RoundTrips a :=
  ⟨decodes_of_read h, (decodes_of_read h).2 _ (parse?_compact hw)⟩

theorem Lawful.roundTrips [Lawful c] (a : α) : c.RoundTrips a :=
  (Lawful.readsBack a).roundTrips (Lawful.isWritten a)

end Public

theorem tolerates_structured (h : Fills x d fields d) (hnames : (fields.map Member.name).Nodup) :
    (structured fields d).Tolerates d x := by
  have hread : ∀ members, Variation ((structured fields d).write x).members
      ((structured fields d).write d).members members →
      (structured fields d).read (.obj members) = some x := fun _ => read_of_variation h hnames
  -- The document is a variation of itself, with no other members.
  have hself : (structured fields d).ReadsBack x :=
    hread ((structured fields d).write x).members (.of_perm (by rw [List.append_nil]) (List.forall_mem_nil _))
  exact ⟨hself.roundTrips (isWritten_structured h), fun members hm => decodes_of_read (hread members hm)⟩

end Codec

open Codec

/-- **Documents are decoded to what they were written for.** Those of profiles, updates and SIMs also are when
defaults are left out, and whatever the order of their members and the names beside them; those of targets
whatever the order of their members. Predicates must not be too deep for documents, and ids fit a word of 64
bits. -/
theorem documents_read_back :
    (∀ p : Profile, (∀ id, p.id = some id → id.val < UInt64.size) → profile.Tolerates {} p) ∧
      (∀ u : Update, update.Tolerates {} u) ∧
      (∀ s : Sim, sim.Tolerates {} s) ∧
      (∀ q : Predicate, (predicate.write q).depth ≤ maxDepth → predicate.RoundTrips q) ∧
      (∀ v : Value, value.RoundTrips v) ∧
      (∀ s : Scope, scope.RoundTrips s) ∧
      (∀ who : Caller, caller.RoundTrips who) ∧
      ∀ t : Target, (∀ s id, t = .row s id → id.val < UInt64.size) → target.RoundTrips t ∧
        ∀ members, members.Perm (target.write t).members → target.Decodes (.obj members) t := by
  refine ⟨fun p hid => tolerates_structured (fills_profile p hid) (by decide),
    fun u => tolerates_structured (fills_update u) (by decide),
    fun s => tolerates_structured (fills_sim s) (by decide), fun q hq => ?_, Lawful.roundTrips,
    Lawful.roundTrips, fun who => (readsBack_caller who).roundTrips (isWritten_caller who),
    fun t hid => ?_⟩
  · have hback : predicate.ReadsBack q := by
      rw [ReadsBack, read_write_predicate, if_pos hq]
    exact hback.roundTrips (isWritten_writePredicate q)
  · have hread : ∀ members, members.Perm (target.write t).members →
        target.Decodes (.obj members) t := fun _ h => decodes_of_read (read_target_of_perm t hid h)
    have hself : target.ReadsBack t := by
      obtain ⟨members, hmembers⟩ : ∃ members, target.write t = .obj members := by
        cases t <;> exact ⟨_, rfl⟩
      rw [ReadsBack, hmembers]
      exact (hread members (by rw [hmembers]; rfl)).1
    exact ⟨hself.roundTrips (isWritten_target t), hread⟩

/-- A profile in reverse order with a note before it, an empty update, a SIM with nothing but a name, a
predicate, and a target whose form comes last. -/
theorem documents_read_back_web :
    let web : Profile := { id := some ⟨7⟩, apn := "web", numeric := "26201" }
    let guest : Sim := { spn := some "Guest" }
    let note : Json.Quoted × Json := (.ofText "note", .null)
    let q : Predicate := .inverse (.compare .apn .eq (.text "web"))
    profile.read (.obj (note :: (profile.write web).members.reverse)) = some web ∧
      update.read (.obj []) = some {} ∧
      sim.parse "\x7b\"note\":null,\"spn\":\"Guest\"\x7d" = .ok guest ∧
      predicate.parse (predicate.write q).compact = .ok q ∧
      target.read (.obj [(.ofText "id", .ofInt 5), (.ofText "scope", .ofText "general"),
        (.ofText "target", .ofText "row")]) = some (.row .general ⟨5⟩) := by
  intro web guest note q
  obtain ⟨hprofile, hupdate, hsim, hpredicate, -, -, -, htarget⟩ := documents_read_back
  have hweb : Variation (profile.write web).members (profile.write {}).members
      (note :: (profile.write web).members.reverse) := by
    refine .of_perm (((List.reverse_perm _).cons note).trans (List.perm_append_singleton note _).symm)
      (List.forall_mem_singleton.mpr ?_)
    exact ⟨"note", by decide +kernel, by decide +kernel⟩
  have hempty : Variation (update.write {}).members (update.write {}).members [] :=
    ⟨fun _ => false, [], by simp, fun _ he _ => he, nofun⟩
  -- What is left out of the SIM is null in the default as well.
  have hleft : ∀ m ∈ simFields, m.name ≠ "spn" → entry guest m = entry {} m := by
    simp only [simFields, List.forall_mem_cons]
    exact ⟨fun _ => rfl, fun h => absurd rfl h, fun _ => rfl, fun _ => rfl, fun _ => rfl,
      List.forall_mem_nil _⟩
  have hguest : Variation (sim.write guest).members (sim.write {}).members
      [note, (.ofText "spn", .ofText "Guest")] := by
    refine ⟨(· == .ofText "spn"), [note], .swap _ _ _, ?_,
      List.forall_mem_singleton.mpr ⟨"note", by decide +kernel, by decide +kernel⟩⟩
    change ∀ e ∈ simFields.map (entry guest), _ → e ∈ simFields.map (entry {})
    refine List.forall_mem_map.mpr fun m hm hkeep => ?_
    have hname : m.name ≠ "spn" := fun h => by simp [entry, h] at hkeep
    exact hleft m hm hname ▸ List.mem_map_of_mem hm
  have htext : parse? "\x7b\"note\":null,\"spn\":\"Guest\"\x7d" =
      some (.obj [note, (.ofText "spn", .ofText "Guest")]) := by
    have hwritten : (Json.ofMembers [("note", .null), ("spn", .ofText "Guest")]).IsWritten := by
      refine isWritten_ofMembers ?_
      simp [isWritten_ofText, IsWritten]
    refine Eq.trans (congrArg parse? ?_) (parse?_compact hwritten)
    decide +kernel
  refine ⟨((hprofile web ?_).2 _ hweb).1, ((hupdate {}).2 _ hempty).1,
    ((hsim guest).2 _ hguest).2 _ htext, (hpredicate q (by decide)).2,
    ((htarget (.row .general ⟨5⟩) ?_).2 _ (List.reverse_perm _)).1⟩
  · rintro _ ⟨⟩
    decide
  · rintro _ _ ⟨⟩
    decide

end ApnRegistry
