import ApnRegistry.Mvno
import Mathlib.Data.String.Basic

/-!
# Constraints that a SIM meets

A constraint is compared with a SIM by bytes in part: a pattern with more bytes than the IMSI is not run,
and a group identifier is cut after a number of bytes. That never decides the matter, because whatever
stands for a character has as many bytes as the character itself. `Mvno.Meets` speaks of characters only.

Results:
* `Mvno.imsiMatches_iff`, `Mvno.gidMatches_iff`, `Mvno.iccidMatches_iff`: one comparison each.
* `Mvno.isMet_iff`: the constraint of a profile.
-/

namespace ApnRegistry

open String (utf8Len)

namespace Text

/-- A letter has as many bytes in either case. -/
theorem utf8Size_toLower (c : Char) : c.toLower.utf8Size = c.utf8Size := by
  unfold Char.toLower
  split
  · rename_i h
    -- The letters from `A` to `Z` and from `a` to `z` have one byte.
    have hupper : c.val ≤ 127 := UInt32.le_trans h.2 (by decide)
    have hlower : c.val + ('a'.val - 'A'.val) ≤ 127 := by
      have := UInt32.le_iff_toNat_le.mp h.2
      rw [UInt32.le_iff_toNat_le, UInt32.toNat_add]
      simp only [Char.reduceVal, UInt32.reduceSub, UInt32.reduceToNat] at this ⊢
      omega
    rw [Char.utf8Size_eq_one_iff.mpr hlower, Char.utf8Size_eq_one_iff.mpr hupper]
  · rfl

theorem utf8Len_lower (cs : List Char) : utf8Len (lower cs) = utf8Len cs := by
  induction cs with
  | nil => rfl
  | cons c cs ih =>
    show utf8Len (lower cs) + c.toLower.utf8Size = utf8Len cs + c.utf8Size
    rw [ih, utf8Size_toLower]

end Text

namespace Mvno

/-! ## IMSI patterns -/

/-- The pattern character stands for the character: `x` and `X` for each ASCII digit, and any other one
for itself. -/
inductive StandsFor : Char → Char → Prop
  | digit {a c : Char} (wild : a = 'x' ∨ a = 'X') (isDigit : c.isDigit = true) : StandsFor a c
  | itself {a : Char} (plain : a ≠ 'x' ∧ a ≠ 'X') : StandsFor a a

variable {pattern data : String} {p : Profile} {sim : Sim} {a c : Char} {ps cs front : List Char}

theorem acceptsChar_iff : acceptsChar a c = true ↔ StandsFor a c := by
  unfold acceptsChar
  by_cases hwild : a = 'x' ∨ a = 'X'
  · rw [if_pos (by simpa using hwild)]
    refine ⟨.digit hwild, ?_⟩
    rintro (⟨-, hdigit⟩ | ⟨hplain⟩)
    · exact hdigit
    · exact absurd hwild (not_or.mpr hplain)
  · rw [if_neg (by simpa using hwild), beq_iff_eq]
    constructor
    · rintro rfl
      exact .itself (not_or.mp hwild)
    · rintro (⟨hwild', -⟩ | -)
      · exact absurd hwild' hwild
      · rfl

/-- What a pattern character stands for has as many bytes. -/
theorem StandsFor.utf8Size_eq (h : StandsFor a c) : a.utf8Size = c.utf8Size := by
  cases h with
  | itself => rfl
  | digit wild isDigit =>
    have hc : c.val ≤ 127 := by
      simp only [Char.isDigit, Bool.and_eq_true, decide_eq_true_eq] at isDigit
      exact UInt32.le_trans isDigit.2 (by decide)
    rw [Char.utf8Size_eq_one_iff.mpr hc]
    rcases wild with rfl | rfl <;> rfl

theorem utf8Len_eq_of_forall₂ (h : List.Forall₂ StandsFor ps front) : utf8Len ps = utf8Len front := by
  induction h with
  | nil => rfl
  | cons h _ ih => rw [String.utf8Len_cons, String.utf8Len_cons, ih, h.utf8Size_eq]

/-- The text starts with as many characters as the pattern has, and the pattern stands for them one by
one. -/
def Fits (pattern text : List Char) : Prop :=
  ∃ front rest, text = front ++ rest ∧ List.Forall₂ StandsFor pattern front

theorem acceptsStart_iff : ∀ {ps cs : List Char}, acceptsStart ps cs = true ↔ Fits ps cs
  | [], cs => iff_of_true rfl ⟨[], cs, rfl, .nil⟩
  | a :: ps, [] => by
    refine iff_of_false Bool.false_ne_true ?_
    rintro ⟨front, rest, hcs, hfront⟩
    obtain ⟨rfl, -⟩ := List.append_eq_nil_iff.mp hcs.symm
    cases hfront
  | a :: ps, c :: cs => by
    rw [acceptsStart, Bool.and_eq_true, acceptsChar_iff, acceptsStart_iff]
    constructor
    · rintro ⟨hc, front, rest, rfl, hfront⟩
      exact ⟨c :: front, rest, rfl, .cons hc hfront⟩
    · rintro ⟨front, rest, hcs, hfront⟩
      cases hfront with
      | cons hc hfront =>
        obtain ⟨rfl, rfl⟩ := List.cons_eq_cons.mp hcs
        exact ⟨hc, _, rest, rfl, hfront⟩

theorem Fits.utf8Len_le (h : Fits ps cs) : utf8Len ps ≤ utf8Len cs := by
  obtain ⟨front, rest, rfl, hfront⟩ := h
  rw [utf8Len_eq_of_forall₂ hfront, String.utf8Len_append]
  exact Nat.le_add_right _ _

theorem not_isEmpty_iff : (!data.isEmpty) = true ↔ data ≠ "" := by
  rw [Bool.not_eq_true', ← Bool.not_eq_true, String.isEmpty_iff]

/-- **An IMSI matches a pattern by its characters**: the number of bytes never decides. -/
theorem imsiMatches_iff {imsi : String} : imsiMatches pattern imsi = true ↔
    pattern ≠ "" ∧ Fits pattern.toList imsi.toList := by
  rw [imsiMatches, isTried, Bool.and_eq_true, Bool.and_eq_true, not_isEmpty_iff, decide_eq_true_eq,
    acceptsStart_iff, and_assoc]
  refine and_congr_right fun _ => and_iff_right_of_imp fun hfits => ?_
  rw [← String.utf8Len_toList, ← String.utf8Len_toList]
  exact hfits.utf8Len_le

/-! ## Group identifiers and ICCIDs -/

theorem bytePrefix?_eq_some_iff : ∀ {n : Nat} {cs front : List Char},
    bytePrefix? n cs = some front ↔ (∃ rest, cs = front ++ rest) ∧ utf8Len front = n
  | 0, cs, front => by
    rw [bytePrefix?, Option.some.injEq]
    constructor
    · rintro rfl
      exact ⟨⟨cs, rfl⟩, rfl⟩
    · rintro ⟨-, hlen⟩
      exact (String.utf8Len_eq_zero.mp hlen).symm
  | n + 1, [], front => by
    refine iff_of_false nofun ?_
    rintro ⟨⟨rest, hcs⟩, hlen⟩
    obtain ⟨rfl, -⟩ := List.append_eq_nil_iff.mp hcs.symm
    cases hlen
  | n + 1, c :: cs, front => by
    have hpos := c.utf8Size_pos
    rw [bytePrefix?]
    constructor
    · intro h
      split at h
      · rename_i hle
        obtain ⟨front, hfront, rfl⟩ := Option.map_eq_some_iff.mp h
        obtain ⟨⟨rest, rfl⟩, hlen⟩ := bytePrefix?_eq_some_iff.mp hfront
        refine ⟨⟨rest, rfl⟩, ?_⟩
        rw [String.utf8Len_cons, hlen]
        omega
      · cases h
    · rintro ⟨⟨rest, hcs⟩, hlen⟩
      cases front with
      | nil => cases hlen
      | cons d front =>
        rw [List.cons_append] at hcs
        obtain ⟨rfl, rfl⟩ := List.cons_eq_cons.mp hcs
        rw [String.utf8Len_cons] at hlen
        have hfront : bytePrefix? (n + 1 - c.utf8Size) (front ++ rest) = some front :=
          bytePrefix?_eq_some_iff.mpr ⟨⟨rest, rfl⟩, by omega⟩
        rw [if_pos (by omega), hfront]
        rfl

/-- **A group identifier matches by its characters**, and ASCII case does not count. -/
theorem gidMatches_iff {gid : String} : gidMatches data gid = true ↔ data ≠ "" ∧
    ∃ front rest, gid.toList = front ++ rest ∧ Text.lower front = Text.lower data.toList := by
  rw [gidMatches, Bool.and_eq_true, not_isEmpty_iff, Option.any_eq_true]
  refine and_congr_right fun _ => exists_congr fun front => ?_
  rw [bytePrefix?_eq_some_iff, Text.sameCaseless_iff, ← exists_and_right, ← exists_and_right]
  refine exists_congr fun rest => ⟨fun h => ⟨h.1.1, h.2⟩, fun h => ⟨⟨h.1, ?_⟩, h.2⟩⟩
  rw [← String.utf8Len_toList, ← Text.utf8Len_lower front, h.2, Text.utf8Len_lower]

theorem iccidMatches_iff {iccid : String} : iccidMatches data iccid = true ↔
    data ≠ "" ∧ data.toList <+: iccid.toList := by
  rw [iccidMatches, Bool.and_eq_true, not_isEmpty_iff, List.isPrefixOf_iff_prefix]

/-! ## Constraints -/

/-- **The SIM meets the constraint of the profile.** -/
inductive Meets (p : Profile) (sim : Sim) : Prop
  | spn (kind : p.mvnoKind = .spn) (given : p.mvnoData ≠ "") (same : sim.spn = some p.mvnoData)
  | imsi {imsi : String} (kind : p.mvnoKind = .imsi) (given : p.mvnoData ≠ "")
      (known : sim.imsi = some imsi) (fits : Fits p.mvnoData.toList imsi.toList)
  | gid {gid : String} {front rest : List Char} (kind : p.mvnoKind = .gid) (given : p.mvnoData ≠ "")
      (known : sim.gid1 = some gid) (split : gid.toList = front ++ rest)
      (same : Text.lower front = Text.lower p.mvnoData.toList)
  | iccid {iccid : String} (kind : p.mvnoKind = .iccid) (given : p.mvnoData ≠ "")
      (known : sim.iccid = some iccid) (start : p.mvnoData.toList <+: iccid.toList)

theorem isMet_of_meets (h : Meets p sim) : isMet p sim = true := by
  cases h with
  | spn kind given same => simp [isMet, kind, same, spnMatches, given]
  | imsi kind given known fits =>
    simp only [isMet, kind, known, Option.any_some]
    exact imsiMatches_iff.mpr ⟨given, fits⟩
  | gid kind given known split same =>
    simp only [isMet, kind, known, Option.any_some]
    exact gidMatches_iff.mpr ⟨given, _, _, split, same⟩
  | iccid kind given known start =>
    simp only [isMet, kind, known, Option.any_some]
    exact iccidMatches_iff.mpr ⟨given, start⟩

theorem meets_of_isMet (h : isMet p sim = true) : Meets p sim := by
  unfold isMet at h
  split at h
  next => cases h
  next kind =>
    obtain ⟨spn, hspn, hm⟩ := (Option.any_eq_true _ _).mp h
    rw [spnMatches, Bool.and_eq_true, not_isEmpty_iff, beq_iff_eq] at hm
    exact .spn kind hm.1 (hm.2 ▸ hspn)
  next kind =>
    obtain ⟨imsi, himsi, hm⟩ := (Option.any_eq_true _ _).mp h
    obtain ⟨given, fits⟩ := imsiMatches_iff.mp hm
    exact .imsi kind given himsi fits
  next kind =>
    obtain ⟨gid, hgid, hm⟩ := (Option.any_eq_true _ _).mp h
    obtain ⟨given, front, rest, split, same⟩ := gidMatches_iff.mp hm
    exact .gid kind given hgid split same
  next kind =>
    obtain ⟨iccid, hiccid, hm⟩ := (Option.any_eq_true _ _).mp h
    obtain ⟨given, start⟩ := iccidMatches_iff.mp hm
    exact .iccid kind given hiccid start

theorem isMet_iff : isMet p sim = true ↔ Meets p sim := ⟨meets_of_isMet, isMet_of_meets⟩

/-- Only a profile with a constraint can have one that is met. -/
theorem Meets.hasMvno (h : Meets p sim) : p.hasMvno = true := by
  cases h <;> simp [Profile.hasMvno, *]

end Mvno

end ApnRegistry
