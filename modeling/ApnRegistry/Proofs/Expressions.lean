import ApnRegistry.Proofs.VirtualOperators
import Mathlib.Data.List.Forall2

/-!
# IMSI patterns as regular expressions

A pattern can be handed to a library of regular expressions: `^` in front, `[0-9]` for each `x` or `X`, and
every other character escaped (`Mvno.expression`). What such a library does is a parameter here. All that
is asked of it is what the documentation of expressions says about these three parts, wherever they stand
in an expression (`Library.Documented`): a search finds a place in the text where the parts take characters
one after the other, `^` takes none and only at the start, `[0-9]` takes a digit, and an escaped character
takes itself.

`Mvno.compare` compares a profile with a SIM by such a library. It finds what `Mvno.isMet` finds, or fails
as `Mvno.refusal` says.

Results:
* `Expression.finds_partsOf`: where the expression of a pattern is found.
* `Mvno.compare_eq`: comparing by expressions.
* `Expression.documented_plain`: a library that does what the documentation says.
* `Mvno.compare_reads_characters`: the answer by characters, and how it changes with SIM and pattern.
-/

namespace ApnRegistry

namespace Expression

/-- A part of an expression. -/
inductive Part where
  /-- The start of the text. -/
  | start
  /-- One digit. -/
  | digit
  /-- The character itself. -/
  | literal (c : Char)

/-- The part takes the character. -/
def Part.accepts : Part → Char → Bool
  | .start, _ => false
  | .digit, c => c.isDigit
  | .literal a, c => a == c

/-- The parts take the characters, one after the other, from where `before` ends. -/
inductive Takes : List Part → List Char → List Char → Prop
  | done {before : List Char} : Takes [] before []
  | start {parts : List Part} {taken : List Char} (more : Takes parts [] taken) :
      Takes (.start :: parts) [] taken
  | one {part : Part} {parts : List Part} {before taken : List Char} {c : Char}
      (accepts : part.accepts c = true) (more : Takes parts (before ++ [c]) taken) :
      Takes (part :: parts) before (c :: taken)

/-- The parts take characters somewhere in the text. -/
def Finds (parts : List Part) (text : List Char) : Prop :=
  ∃ before taken rest, text = before ++ taken ++ rest ∧ Takes parts before taken

/-- A library of regular expressions. -/
structure Library where
  /-- The expression for a text that stands for itself. -/
  escape : String → String
  /-- The search that an expression describes, or what is wrong with the expression. -/
  compile : String → Except String (String → Bool)

variable {lib : Library} {parts : List Part} {before taken text pattern : List Char} {c : Char}

/-- How a part is written. -/
def Part.written (lib : Library) : Part → List Char
  | .start => ['^']
  | .digit => ['[', '0', '-', '9', ']']
  | .literal c => (lib.escape (String.singleton c)).toList

/-- How parts are written one after the other. -/
def written (lib : Library) (parts : List Part) : String :=
  String.ofList (parts.flatMap (Part.written lib))

/-- **What is documented**: an expression of these parts that compiles is searched for in the text. -/
def Library.Documented (lib : Library) : Prop :=
  ∀ (parts : List Part) (test : String → Bool), lib.compile (written lib parts) = .ok test →
    ∀ text : String, test text = true ↔ Finds parts text.toList

/-! ## Parts of a pattern -/

/-- The part that a character of a pattern becomes. -/
def partOf (c : Char) : Part := if c = 'x' || c = 'X' then .digit else .literal c

/-- The parts of the expression for a pattern. -/
def partsOf (pattern : List Char) : List Part := .start :: pattern.map partOf

/-- The part takes what the character of the pattern stands for. -/
theorem accepts_partOf {a : Char} : (partOf a).accepts c = true ↔ Mvno.StandsFor a c := by
  rw [← Mvno.acceptsChar_iff, partOf, Mvno.acceptsChar]
  by_cases hwild : (a = 'x' || a = 'X') = true
  · rw [if_pos hwild, if_pos hwild, Part.accepts]
  · rw [if_neg hwild, if_neg hwild, Part.accepts]

theorem partOf_ne_start (c : Char) : partOf c ≠ .start := by
  unfold partOf
  split <;> exact Part.noConfusion

theorem takes_cons_iff {part : Part} : Takes (part :: parts) before taken ↔
    part = .start ∧ before = [] ∧ Takes parts [] taken ∨
      ∃ c more, taken = c :: more ∧ part.accepts c = true ∧ Takes parts (before ++ [c]) more := by
  constructor
  · intro h
    cases h with
    | start more => exact Or.inl ⟨rfl, rfl, more⟩
    | one accepts more => exact Or.inr ⟨_, _, rfl, accepts, more⟩
  · rintro (⟨rfl, rfl, more⟩ | ⟨c, more, rfl, accepts, hmore⟩)
    · exact .start more
    · exact .one accepts hmore

/-- The parts of a pattern take what its characters stand for, wherever they are in the text. -/
theorem takes_map_partOf : Takes (pattern.map partOf) before taken ↔
    List.Forall₂ Mvno.StandsFor pattern taken := by
  induction pattern generalizing before taken with
  | nil =>
    constructor
    · intro h
      cases h
      exact .nil
    · intro h
      cases h
      exact .done
  | cons a pattern ih =>
    rw [List.map_cons, takes_cons_iff, or_iff_right fun h => partOf_ne_start a h.1]
    constructor
    · rintro ⟨c, more, rfl, accepts, hmore⟩
      exact .cons (accepts_partOf.mp accepts) (ih.mp hmore)
    · intro h
      cases h with
      | cons stands more => exact ⟨_, _, rfl, accepts_partOf.mpr stands, ih.mpr more⟩

/-- **The expression of a pattern is found** only at the start, and where the pattern fits. -/
theorem finds_partsOf : Finds (partsOf pattern) text ↔ Mvno.Fits pattern text := by
  constructor
  · rintro ⟨before, taken, rest, rfl, htakes⟩
    rcases takes_cons_iff.mp htakes with ⟨-, rfl, more⟩ | ⟨_, _, _, accepts, -⟩
    · exact ⟨taken, rest, rfl, takes_map_partOf.mp more⟩
    · cases accepts
  · rintro ⟨front, rest, rfl, hfront⟩
    exact ⟨[], front, rest, rfl, .start (takes_map_partOf.mpr hfront)⟩

/-! ## A library that does what is documented -/

/-- The characters that mean something in an expression. -/
def reserved : List Char :=
  ['\\', '.', '+', '*', '?', '(', ')', '|', '[', ']', '\x7b', '\x7d', '^', '$', '#', '&', '-', '~']

/-- The characters with a backslash before each one that is reserved. -/
def escaped (cs : List Char) : List Char :=
  cs.flatMap fun c => if c ∈ reserved then ['\\', c] else [c]

/-- The parts that are written in an expression. -/
def readParts : List Char → List Part
  | [] => []
  | '^' :: cs => .start :: readParts cs
  | '[' :: '0' :: '-' :: '9' :: ']' :: cs => .digit :: readParts cs
  | '\\' :: c :: cs => .literal c :: readParts cs
  | c :: cs => .literal c :: readParts cs

/-- The parts take characters from the front of what is left of the text. -/
def takesFront : List Part → (atStart : Bool) → List Char → Bool
  | [], _, _ => true
  | .start :: parts, atStart, text => atStart && takesFront parts atStart text
  | _ :: _, _, [] => false
  | part :: parts, _, c :: text => part.accepts c && takesFront parts false text

/-- The parts take characters from some place on. -/
def search (parts : List Part) : Bool → List Char → Bool
  | atStart, [] => takesFront parts atStart []
  | atStart, c :: text => takesFront parts atStart (c :: text) || search parts false text

/-- A library for expressions of the three parts. -/
def plain : Library where
  escape text := String.ofList (escaped text.toList)
  compile expression := .ok fun text => search (readParts expression.toList) true text.toList

theorem written_literal (c : Char) :
    Part.written plain (.literal c) = if c ∈ reserved then ['\\', c] else [c] := by
  simp only [Part.written, plain, String.toList_ofList, String.toList_singleton, escaped,
    List.flatMap_singleton]

theorem readParts_of_not_reserved (h : c ∉ reserved) (cs : List Char) :
    readParts (c :: cs) = .literal c :: readParts cs := by
  have away (d : Char) (hd : d ∈ reserved) : c ≠ d := fun heq => h (heq ▸ hd)
  rw [readParts]
  · exact away '^' (by decide)
  · exact fun _ hc => absurd hc (away '[' (by decide))
  · exact fun _ _ hc => absurd hc (away '\\' (by decide))

/-- What is written is read back. -/
theorem readParts_written (parts : List Part) :
    readParts (parts.flatMap (Part.written plain)) = parts := by
  induction parts with
  | nil => rfl
  | cons part parts ih =>
    rw [List.flatMap_cons]
    cases part with
    | start => exact congrArg _ ih
    | digit => exact congrArg _ ih
    | literal c =>
      rw [written_literal]
      split
      · exact congrArg _ ih
      · rename_i hc
        rw [List.singleton_append, readParts_of_not_reserved hc, ih]

theorem isEmpty_append_singleton (before : List Char) (c : Char) : (before ++ [c]).isEmpty = false := by
  rw [List.isEmpty_eq_false_iff]
  exact List.append_ne_nil_of_right_ne_nil before (List.cons_ne_nil c [])

/-- A part other than `^` needs a character of the text. -/
theorem takesFront_of_ne_start {part : Part} (h : part ≠ .start) (atStart : Bool) :
    takesFront (part :: parts) atStart text = true ↔
      ∃ c rest, text = c :: rest ∧ part.accepts c = true ∧ takesFront parts false rest = true := by
  cases text with
  | nil =>
    refine iff_of_false (fun ht => ?_) nofun
    cases part with
    | start => exact h rfl
    | digit => cases ht
    | literal a => cases ht
  | cons c text =>
    have hcons : takesFront (part :: parts) atStart (c :: text) =
        (part.accepts c && takesFront parts false text) := by
      cases part with
      | start => exact absurd rfl h
      | digit => rfl
      | literal a => rfl
    rw [hcons, Bool.and_eq_true]
    constructor
    · exact fun ⟨accepts, more⟩ => ⟨c, text, rfl, accepts, more⟩
    · rintro ⟨_, _, heq, accepts, more⟩
      obtain ⟨rfl, rfl⟩ := List.cons_eq_cons.mp heq
      exact ⟨accepts, more⟩

/-- The parts take characters from the front exactly if the front is what they take. -/
theorem takesFront_iff : takesFront parts before.isEmpty text = true ↔
    ∃ taken rest, text = taken ++ rest ∧ Takes parts before taken := by
  -- `^` leaves the place and any other part moves it, so the place is general
  induction parts generalizing before text with
  | nil =>
    rw [takesFront]
    exact iff_of_true rfl ⟨[], text, rfl, .done⟩
  | cons part parts ih =>
    by_cases hstart : part = .start
    · subst hstart
      rw [takesFront, Bool.and_eq_true, ih, List.isEmpty_iff]
      constructor
      · rintro ⟨rfl, taken, rest, rfl, htakes⟩
        exact ⟨taken, rest, rfl, .start htakes⟩
      · rintro ⟨taken, rest, rfl, htakes⟩
        rcases takes_cons_iff.mp htakes with ⟨-, rfl, more⟩ | ⟨_, _, _, accepts, -⟩
        · exact ⟨rfl, taken, rest, rfl, more⟩
        · cases accepts
    · rw [takesFront_of_ne_start hstart]
      constructor
      · rintro ⟨c, text, rfl, accepts, more⟩
        rw [← isEmpty_append_singleton before c, ih] at more
        obtain ⟨taken, rest, rfl, htakes⟩ := more
        exact ⟨c :: taken, rest, rfl, .one accepts htakes⟩
      · rintro ⟨taken, rest, rfl, htakes⟩
        obtain ⟨c, more, rfl, accepts, hmore⟩ :=
          (takes_cons_iff.mp htakes).resolve_left fun h => hstart h.1
        refine ⟨c, more ++ rest, rfl, accepts, ?_⟩
        rw [← isEmpty_append_singleton before c, ih]
        exact ⟨more, rest, rfl, hmore⟩

theorem search_iff : search parts before.isEmpty text = true ↔
    ∃ skipped taken rest, text = skipped ++ taken ++ rest ∧ Takes parts (before ++ skipped) taken := by
  induction text generalizing before with
  | nil =>
    rw [search, takesFront_iff]
    constructor
    · rintro ⟨taken, rest, heq, htakes⟩
      exact ⟨[], taken, rest, heq, (List.append_nil before).symm ▸ htakes⟩
    · rintro ⟨skipped, taken, rest, heq, htakes⟩
      obtain ⟨hfront, hrest⟩ := List.append_eq_nil_iff.mp heq.symm
      obtain ⟨rfl, rfl⟩ := List.append_eq_nil_iff.mp hfront
      exact ⟨[], rest, heq, List.append_nil before ▸ htakes⟩
  | cons c text ih =>
    rw [search, Bool.or_eq_true, takesFront_iff, ← isEmpty_append_singleton before c, ih]
    constructor
    · rintro (⟨taken, rest, heq, htakes⟩ | ⟨skipped, taken, rest, rfl, htakes⟩)
      · exact ⟨[], taken, rest, heq, (List.append_nil before).symm ▸ htakes⟩
      · exact ⟨c :: skipped, taken, rest, rfl, by rwa [List.append_cons]⟩
    · rintro ⟨_ | ⟨d, skipped⟩, taken, rest, heq, htakes⟩
      · exact Or.inl ⟨taken, rest, heq, List.append_nil before ▸ htakes⟩
      · obtain ⟨rfl, rfl⟩ := List.cons_eq_cons.mp heq
        exact Or.inr ⟨skipped, taken, rest, rfl, by rwa [List.append_cons] at htakes⟩

/-- **The plain library** does what is documented. -/
theorem documented_plain : plain.Documented := by
  intro parts test hcompile text
  have hread : readParts (written plain parts).toList = parts := by
    rw [written, String.toList_ofList, readParts_written]
  simp only [plain, Except.ok.injEq] at hcompile
  rw [← hcompile]
  show search (readParts (written plain parts).toList) true text.toList = true ↔ _
  rw [hread]
  exact @search_iff parts [] text.toList

end Expression

/-! ## Comparing by expressions -/

namespace Mvno

open Expression (Library partsOf finds_partsOf written)

variable {lib : Library} {pattern imsi data text more : String} {p : Profile} {sim sim' : Sim}

/-- The expression for a pattern. -/
def expression (lib : Library) (pattern : String) : String :=
  String.ofList ('^' :: pattern.toList.flatMap fun c =>
    if c = 'x' || c = 'X' then ['[', '0', '-', '9', ']'] else (lib.escape (String.singleton c)).toList)

/-- Compares the IMSI with the pattern by an expression, unless the pattern is not to be tried. -/
def compareImsi (lib : Library) (pattern imsi : String) : Except Error Bool :=
  if isTried pattern imsi then
    match lib.compile (expression lib pattern) with
    | .ok test => .ok (test imsi)
    | .error objection => .error (.refusedPattern pattern objection)
  else .ok false

/-- Compares the SIM with the constraint of the profile. -/
def compare (lib : Library) (p : Profile) (sim : Sim) : Except Error Bool :=
  match p.mvnoKind with
  | .none => .ok false
  | .spn => .ok (sim.spn.any (spnMatches p.mvnoData))
  | .imsi =>
    match sim.imsi with
    | some imsi => compareImsi lib p.mvnoData imsi
    | none => .ok false
  | .gid => .ok (sim.gid1.any (gidMatches p.mvnoData))
  | .iccid => .ok (sim.iccid.any (iccidMatches p.mvnoData))

/-- What the library objects to in a pattern. -/
def engineOf (lib : Library) : Engine := fun pattern =>
  match lib.compile (expression lib pattern) with
  | .ok _ => none
  | .error objection => some objection

theorem expression_eq_written (lib : Library) (pattern : String) :
    expression lib pattern = written lib (partsOf pattern.toList) := by
  rw [expression, written, partsOf, List.flatMap_cons, List.flatMap_map]
  refine congrArg (fun cs => String.ofList ('^' :: cs)) ?_
  refine congrArg (List.flatMap · pattern.toList) (funext fun c => ?_)
  unfold Expression.partOf
  split <;> rfl

/-- **The expression of a pattern finds** the IMSIs that the pattern fits. -/
theorem test_iff (h : lib.Documented) {test : String → Bool}
    (hcompile : lib.compile (expression lib pattern) = .ok test) :
    test imsi = true ↔ Fits pattern.toList imsi.toList := by
  rw [expression_eq_written] at hcompile
  exact (h _ test hcompile imsi).trans finds_partsOf

/-- A pattern that fits has no more bytes than the IMSI. -/
theorem isTried_of_fits (hne : pattern ≠ "") (h : Fits pattern.toList imsi.toList) :
    isTried pattern imsi = true := by
  have hmatch : imsiMatches pattern imsi = true := imsiMatches_iff.mpr ⟨hne, h⟩
  exact (Bool.and_eq_true_iff.mp hmatch).1

theorem compareImsi_eq (h : lib.Documented) : compareImsi lib pattern imsi =
    match if isTried pattern imsi then engineOf lib pattern else none with
    | some objection => .error (.refusedPattern pattern objection)
    | none => .ok (imsiMatches pattern imsi) := by
  unfold compareImsi engineOf imsiMatches
  cases htried : isTried pattern imsi with
  | false => rfl
  | true =>
    cases hcompile : lib.compile (expression lib pattern) with
    | error objection => rfl
    | ok test =>
      have htest : test imsi = acceptsStart pattern.toList imsi.toList := by
        rw [Bool.eq_iff_iff, test_iff h hcompile, acceptsStart_iff]
      simp only [if_true, htest, Bool.true_and]

/-- **Comparing by expressions** is asking for an objection first, and for a match then. -/
theorem compare_eq (h : lib.Documented) (p : Profile) (sim : Sim) : compare lib p sim =
    match refusal (engineOf lib) p sim with
    | some e => .error e
    | none => .ok (isMet p sim) := by
  unfold compare refusal isMet
  cases p.mvnoKind with
  | none => rfl
  | spn => rfl
  | gid => rfl
  | iccid => rfl
  | imsi =>
    cases sim.imsi with
    | none => rfl
    | some imsi =>
      show compareImsi lib p.mvnoData imsi = _
      rw [compareImsi_eq h]
      simp only [Option.any_some]
      cases isTried p.mvnoData imsi with
      | false => rfl
      | true => cases engineOf lib p.mvnoData <;> rfl

theorem compare_eq_ok_true_iff (h : lib.Documented) :
    compare lib p sim = .ok true ↔ refusal (engineOf lib) p sim = none ∧ Meets p sim := by
  rw [compare_eq h, ← isMet_iff]
  cases refusal (engineOf lib) p sim with
  | some e => exact iff_of_false nofun nofun
  | none => simp only [Except.ok.injEq, true_and]

/-! ## Other SIMs, other patterns -/

/-- The field of a SIM that constraints of the kind are about. -/
def field? : MvnoKind → Sim → Option String
  | .none, _ => none
  | .spn, sim => sim.spn
  | .imsi, sim => sim.imsi
  | .gid, sim => sim.gid1
  | .iccid, sim => sim.iccid

/-- A constraint that is met has data, and its field is known. -/
theorem Meets.given (h : Meets p sim) : p.mvnoData ≠ "" ∧ field? p.mvnoKind sim ≠ none := by
  cases h <;> simp only [field?, *, ne_eq, not_false_eq_true, reduceCtorEq, and_self]

theorem Fits.append {ps cs : List Char} (h : Fits ps cs) (more : List Char) : Fits ps (cs ++ more) := by
  obtain ⟨front, rest, rfl, hfront⟩ := h
  exact ⟨front, rest ++ more, List.append_assoc front rest more, hfront⟩

theorem Fits.of_prefix {ps qs cs : List Char} (h : Fits ps cs) (hpre : qs <+: ps) : Fits qs cs := by
  obtain ⟨front, rest, rfl, hfront⟩ := h
  obtain ⟨tail, rfl⟩ := hpre
  have htake := List.forall₂_take qs.length hfront
  rw [List.take_left] at htake
  refine ⟨front.take qs.length, front.drop qs.length ++ rest, ?_, htake⟩
  rw [← List.append_assoc, List.take_append_drop]

/-- **Characters at the end of the field** lose no match, unless it has to be the data as a whole. -/
theorem Meets.append (h : Meets p sim) (hkind : p.mvnoKind ≠ .spn)
    (hfield : field? p.mvnoKind sim = some text)
    (hlonger : field? p.mvnoKind sim' = some (text ++ more)) : Meets p sim' := by
  cases h with
  | spn kind _ _ => exact absurd kind hkind
  | imsi kind given known fits =>
    rw [kind, field?, known, Option.some.injEq] at hfield
    rw [kind, field?] at hlonger
    refine .imsi kind given hlonger ?_
    rw [String.toList_append, ← hfield]
    exact fits.append more.toList
  | @gid gid front rest kind given known split same =>
    rw [kind, field?, known, Option.some.injEq] at hfield
    rw [kind, field?] at hlonger
    have hsplit : (text ++ more).toList = front ++ (rest ++ more.toList) := by
      rw [String.toList_append, ← hfield, split, List.append_assoc]
    exact .gid kind given hlonger hsplit same
  | iccid kind given known start =>
    rw [kind, field?, known, Option.some.injEq] at hfield
    rw [kind, field?] at hlonger
    refine .iccid kind given hlonger ?_
    rw [String.toList_append, ← hfield]
    exact start.trans (List.prefix_append _ _)

/-- **The start of the data** matches where all of it does. -/
theorem Meets.of_prefix (h : Meets p sim) (hkind : p.mvnoKind ≠ .spn) (hne : data ≠ "")
    (hpre : data.toList <+: p.mvnoData.toList) : Meets { p with mvnoData := data } sim := by
  cases h with
  | spn kind _ _ => exact absurd kind hkind
  | imsi kind _ known fits => exact .imsi kind hne known (fits.of_prefix hpre)
  | @gid gid front rest kind _ known split same =>
    obtain ⟨tail, htail⟩ := hpre
    have hlower : Text.lower (front.take data.toList.length) = Text.lower data.toList := by
      rw [Text.lower, List.map_take, ← Text.lower, same, ← htail, Text.lower, List.map_append,
        ← List.length_map Char.toLower, List.take_left, Text.lower]
    have hsplit : gid.toList =
        front.take data.toList.length ++ (front.drop data.toList.length ++ rest) := by
      rw [split, ← List.append_assoc, List.take_append_drop]
    exact .gid kind hne known hsplit hlower
  | iccid kind _ known start => exact .iccid kind hne known (hpre.trans start)

/-- Only a pattern of its own can make a profile fail. -/
theorem refusal_of_accepted {engine : Engine} (h : p.mvnoKind = .imsi → engine p.mvnoData = none)
    (sim : Sim) : refusal engine p sim = none := by
  unfold refusal
  split
  · rename_i kind _
    rw [h kind, Option.map_none, ite_self]
  · rfl

/-- A pattern that was run is one that the engine accepts. -/
theorem accepted_of_meets {engine : Engine} (hrefusal : refusal engine p sim = none)
    (h : Meets p sim) (hkind : p.mvnoKind = .imsi) : engine p.mvnoData = none := by
  cases h with
  | spn kind _ _ => exact nomatch hkind.symm.trans kind
  | gid kind _ _ _ _ => exact nomatch hkind.symm.trans kind
  | iccid kind _ _ _ => exact nomatch hkind.symm.trans kind
  | imsi _ given known fits =>
    simpa only [refusal, hkind, known, isTried_of_fits given fits, if_true, Option.map_eq_none_iff]
      using hrefusal

/-- **How a profile is compared with a SIM**, by characters. -/
structure ReadsCharacters (lib : Library) (p : Profile) (sim : Sim) : Prop where
  /-- The library may object to the pattern; if not, the answer is that of `isMet`. -/
  answer : compare lib p sim =
    match refusal (engineOf lib) p sim with
    | some e => .error e
    | none => .ok (isMet p sim)
  positional : isMet p sim = true ↔ Meets p sim
  /-- That a pattern with more bytes than the IMSI is not run does not matter. -/
  unguarded : ∀ (pattern imsi : String) (test : String → Bool),
    lib.compile (expression lib pattern) = .ok test →
      (isTried pattern imsi && test imsi) = (!pattern.isEmpty && test imsi)
  longer : p.mvnoKind ≠ .spn → ∀ (sim' : Sim) (text more : String),
    field? p.mvnoKind sim = some text → field? p.mvnoKind sim' = some (text ++ more) →
      compare lib p sim = .ok true → compare lib p sim' = .ok true
  shorter : p.mvnoKind ≠ .spn → ∀ data : String, data ≠ "" → data.toList <+: p.mvnoData.toList →
    (p.mvnoKind = .imsi → engineOf lib data = none) →
      compare lib p sim = .ok true → compare lib { p with mvnoData := data } sim = .ok true
  missing : p.mvnoData = "" ∨ field? p.mvnoKind sim = none → compare lib p sim = .ok false

/-- The test of an expression alone decides, once there is a pattern. -/
theorem isTried_and_test (h : lib.Documented) {test : String → Bool}
    (hcompile : lib.compile (expression lib pattern) = .ok test) :
    (isTried pattern imsi && test imsi) = (!pattern.isEmpty && test imsi) := by
  rw [Bool.eq_iff_iff, Bool.and_eq_true, Bool.and_eq_true, not_isEmpty_iff, test_iff h hcompile]
  refine ⟨fun ⟨htried, hfits⟩ => ⟨?_, hfits⟩, fun ⟨hne, hfits⟩ => ⟨isTried_of_fits hne hfits, hfits⟩⟩
  rw [isTried, Bool.and_eq_true, not_isEmpty_iff] at htried
  exact htried.1

theorem compare_of_missing (h : lib.Documented)
    (hmissing : p.mvnoData = "" ∨ field? p.mvnoKind sim = none) : compare lib p sim = .ok false := by
  have hmet : isMet p sim = false := by
    rw [Bool.eq_false_iff, Ne, isMet_iff]
    exact fun hm => hmissing.elim hm.given.1 hm.given.2
  have hrefusal : refusal (engineOf lib) p sim = none := by
    unfold refusal
    split
    · rename_i kind known
      rcases hmissing with hdata | hfield
      -- an empty pattern is never tried, so nothing can be wrong with it
      · rw [hdata]
        rfl
      · rw [kind, field?, known] at hfield
        cases hfield
    · rfl
  rw [compare_eq h, hrefusal, hmet]

/-- **A profile is compared with a SIM by characters**, by any library that does what is documented. -/
theorem compare_reads_characters (h : lib.Documented) (p : Profile) (sim : Sim) :
    ReadsCharacters lib p sim where
  answer := compare_eq h p sim
  positional := isMet_iff
  unguarded _ _ _ := isTried_and_test h
  longer hkind sim' text more hfield hlonger hmatch := by
    obtain ⟨hrefusal, hmeets⟩ := (compare_eq_ok_true_iff h).mp hmatch
    exact (compare_eq_ok_true_iff h).mpr
      ⟨refusal_of_accepted (accepted_of_meets hrefusal hmeets) sim', hmeets.append hkind hfield hlonger⟩
  shorter hkind data hne hpre haccepted hmatch := by
    obtain ⟨-, hmeets⟩ := (compare_eq_ok_true_iff h).mp hmatch
    exact (compare_eq_ok_true_iff h).mpr
      ⟨refusal_of_accepted haccepted sim, hmeets.of_prefix hkind hne hpre⟩
  missing := compare_of_missing h

/-- A pattern with a letter of two bytes, a character that is reserved in expressions, and a digit. -/
theorem compare_reads_characters_reserved :
    let p : Profile := { apn := "web", mvnoKind := .imsi, mvnoData := "é.x" }
    let sim : Sim := { imsi := some "é.7" }
    Expression.plain.Documented ∧ compare Expression.plain p sim = .ok true ∧
      compare Expression.plain p { imsi := some ("é.7" ++ "42") } = .ok true ∧
      compare Expression.plain { p with mvnoData := "é" } sim = .ok true ∧
      compare Expression.plain { p with mvnoData := "" } sim = .ok false := by
  intro p sim
  have h : ReadsCharacters Expression.plain p sim :=
    compare_reads_characters Expression.documented_plain p sim
  have hmatch : compare Expression.plain p sim = .ok true := h.answer.trans (by decide)
  refine ⟨Expression.documented_plain, hmatch, ?_, ?_, ?_⟩
  · exact h.longer (by decide) _ "é.7" "42" rfl rfl hmatch
  · exact h.shorter (by decide) "é" (by decide) (by decide) (fun _ => rfl) hmatch
  · exact (compare_reads_characters Expression.documented_plain _ sim).missing (Or.inl rfl)

end Mvno

end ApnRegistry
