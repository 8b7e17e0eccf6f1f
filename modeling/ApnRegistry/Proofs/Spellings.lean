import ApnRegistry.Proofs.LegacyCodes
import Mathlib.Algebra.Group.Nat.Defs

/-!
# How integer codes are spelled

A code that is spelled reads back as the integer it was, whatever zeros stand in front (`Text.Spells`). A
network code from 100 on has one spelling. Below 100 there are two, with two digits and with three, and
the known operators of the country decide between them: the one with three digits is taken if it belongs
to an operator, or if that with two does not and three are usual in the country.

A profile that waits for its modern form gets the two texts, and an operator if it had none; nothing else
about it changes (`Filled`). With both texts there, it waits no longer, whoever is known by then.

Results:
* `Respelled`: what is true of the spelling of a network code.
* `pending_eq_some_iff`: the modern form of a profile.
* `codes_respelled`: both, for all codes and profiles.
-/

namespace ApnRegistry

namespace Text

variable {width n : Nat}

/-- The text spells the number in decimal digits. -/
structure Spells (text : String) (n : Nat) : Prop where
  nonempty : text ≠ ""
  digits : ∀ c ∈ text.toList, c.isDigit = true
  value : valueOf text.toList = n

/-- Zeros in front of a numeral do not count. -/
theorem valueOf_padded (width n : Nat) : valueOf (padded width n) = n := by
  rw [valueOf, padded, Nat.ofDigitChars_append, Nat.ofDigitChars_replicate_zero, Nat.mul_zero]
  exact valueOf_digits n

theorem isDigit_of_mem_padded {c : Char} (h : c ∈ padded width n) : c.isDigit = true := by
  rcases List.mem_append.mp h with h | h
  · rw [List.eq_of_mem_replicate h]
    rfl
  · exact Nat.isDigit_of_mem_toDigits (by decide) (by decide) h

/-- The digits fit the width iff the number lies below the power of ten. -/
theorem length_digits_le_iff (h : 0 < width) : (digits n).length ≤ width ↔ n < 10 ^ width :=
  Nat.length_toDigits_le_iff (by decide) h

end Text

namespace LegacyCodes

open Text (Spells)

variable {known : List String} {mcc mnc code : UInt16} {width : Nat} {p q : Profile}

/-! ## Spellings of one code -/

/-- **What is spelled reads back.** -/
theorem spells_spelled (hw : 0 < width) (code : UInt16) : Spells (spelled width code) code.toNat where
  nonempty := spelled_ne_empty hw code
  digits c h := by
    rw [spelled, String.toList_ofList] at h
    exact Text.isDigit_of_mem_padded h
  value := by rw [spelled, String.toList_ofList, Text.valueOf_padded]

/-- Zeros fill the width, and a longer numeral stays as it is. -/
theorem length_spelled (width : Nat) (code : UInt16) :
    (spelled width code).length = max width (toString code.toNat).length := by
  rw [spelled, String.length_ofList, Text.length_padded, Nat.toString_eq_ofList_toDigits,
    String.length_ofList, Text.digits]

theorem length_spelled_of_lt (hw : 0 < width) (h : code.toNat < 10 ^ width) :
    (spelled width code).length = width := by
  rw [length_spelled, Nat.toString_eq_ofList_toDigits, String.length_ofList]
  exact Nat.max_eq_left ((Text.length_digits_le_iff hw).mpr h)

/-- A number with enough digits of its own is spelled plainly. -/
theorem spelled_of_le (h : 10 ^ width ≤ code.toNat) :
    spelled (width + 1) code = toString code.toNat := by
  have hlen : width + 1 ≤ (Text.digits code.toNat).length := by
    rcases Nat.eq_zero_or_pos width with rfl | hw
    · exact Nat.length_toDigits_pos
    · exact Nat.lt_of_not_le fun hle => Nat.not_lt.mpr h ((Text.length_digits_le_iff hw).mp hle)
  rw [spelled, Text.padded, Nat.sub_eq_zero_of_le hlen, Nat.toString_eq_ofList_toDigits]
  rfl

/-- Two digits are not three. -/
theorem spelled_two_ne_three (h : mnc < 100) : spelled 2 mnc ≠ spelled 3 mnc := by
  have hlt : mnc.toNat < 100 := UInt16.lt_iff_toNat_lt.mp h
  intro heq
  have hlen := congrArg String.length heq
  rw [length_spelled_of_lt (by decide) (by omega), length_spelled_of_lt (by decide) (by omega)] at hlen
  exact absurd hlen (by decide)

/-! ## Network codes -/

/-- The network code is spelled with three digits: an operator has it so, or none has it with two digits
and three are usual in the country. -/
def TakesThree (known : List String) (mcc mnc : UInt16) : Prop :=
  mccText mcc ++ spelled 3 mnc ∈ known ∨
    mccText mcc ++ spelled 2 mnc ∉ known ∧ mcc ∈ threeDigitCountries

theorem mncText_of_le (h : 100 ≤ mnc) : mncText known mcc mnc = spelled 3 mnc := if_pos h

theorem mncText_of_takesThree (h : TakesThree known mcc mnc) : mncText known mcc mnc = spelled 3 mnc := by
  unfold mncText usesThreeDigits
  simp only [List.contains_iff_mem]
  rcases h with h | ⟨htwo, hcountry⟩
  · rw [if_pos h, ite_self]
  · rw [if_neg htwo, if_pos hcountry, ite_self, ite_self]

theorem mncText_of_not_takesThree (hlt : mnc < 100) (h : ¬TakesThree known mcc mnc) :
    mncText known mcc mnc = spelled 2 mnc := by
  obtain ⟨hthree, hrest⟩ := not_or.mp h
  unfold mncText usesThreeDigits
  simp only [List.contains_iff_mem]
  rw [if_neg (UInt16.not_le.mpr hlt), if_neg hthree]
  by_cases htwo : mccText mcc ++ spelled 2 mnc ∈ known
  · rw [if_pos htwo]
  · rw [if_neg htwo, if_neg fun hcountry => hrest ⟨htwo, hcountry⟩]

/-- A network code has two spellings at most. -/
theorem exists_mncText_eq (known : List String) (mcc mnc : UInt16) :
    ∃ width, 0 < width ∧ mncText known mcc mnc = spelled width mnc := by
  by_cases h : TakesThree known mcc mnc
  · exact ⟨3, by decide, mncText_of_takesThree h⟩
  · by_cases hlt : mnc < 100
    · exact ⟨2, by decide, mncText_of_not_takesThree hlt h⟩
    · exact ⟨3, by decide, mncText_of_le (UInt16.not_lt.mp hlt)⟩

theorem mncText_eq_three_iff (hlt : mnc < 100) :
    mncText known mcc mnc = spelled 3 mnc ↔ TakesThree known mcc mnc := by
  refine ⟨fun heq => Classical.byContradiction fun h => ?_, mncText_of_takesThree⟩
  exact spelled_two_ne_three hlt ((mncText_of_not_takesThree hlt h).symm.trans heq)

theorem mncText_eq_two_iff (hlt : mnc < 100) :
    mncText known mcc mnc = spelled 2 mnc ↔ ¬TakesThree known mcc mnc := by
  refine ⟨fun heq h => ?_, mncText_of_not_takesThree hlt⟩
  exact spelled_two_ne_three hlt (heq.symm.trans (mncText_of_takesThree h))

/-- Only the two spellings are looked up among the known operators. -/
theorem mncText_congr {known' : List String}
    (htwo : mccText mcc ++ spelled 2 mnc ∈ known ↔ mccText mcc ++ spelled 2 mnc ∈ known')
    (hthree : mccText mcc ++ spelled 3 mnc ∈ known ↔ mccText mcc ++ spelled 3 mnc ∈ known') :
    mncText known mcc mnc = mncText known' mcc mnc := by
  unfold mncText
  simp only [List.contains_iff_mem, htwo, hthree]

/-- **How a network code is spelled.** -/
structure Respelled (known : List String) (mcc mnc : UInt16) (text : String) : Prop where
  spells : Spells text mnc.toNat
  length : mnc < 1000 → text.length = 2 ∨ text.length = 3
  plain : 100 ≤ mnc → text = toString mnc.toNat
  three_iff : mnc < 100 → (text = spelled 3 mnc ↔ TakesThree known mcc mnc)
  two_iff : mnc < 100 → (text = spelled 2 mnc ↔ ¬TakesThree known mcc mnc)
  /-- Other operators do not matter. -/
  settled : ∀ known' : List String,
    (mccText mcc ++ spelled 2 mnc ∈ known ↔ mccText mcc ++ spelled 2 mnc ∈ known') →
    (mccText mcc ++ spelled 3 mnc ∈ known ↔ mccText mcc ++ spelled 3 mnc ∈ known') →
      mncText known' mcc mnc = text

theorem respelled_mncText (known : List String) (mcc mnc : UInt16) :
    Respelled known mcc mnc (mncText known mcc mnc) where
  spells := by
    obtain ⟨width, hw, heq⟩ := exists_mncText_eq known mcc mnc
    rw [heq]
    exact spells_spelled hw mnc
  length h := by
    have hlt : mnc.toNat < 1000 := UInt16.lt_iff_toNat_lt.mp h
    -- what is not spelled with three digits lies below 100
    by_cases hthree : mncText known mcc mnc = spelled 3 mnc
    · rw [hthree]
      exact Or.inr (length_spelled_of_lt (by decide) hlt)
    · have hlt : mnc < 100 := UInt16.not_le.mp (mt mncText_of_le hthree)
      rw [mncText_of_not_takesThree hlt (mt mncText_of_takesThree hthree)]
      exact Or.inl (length_spelled_of_lt (by decide) (UInt16.lt_iff_toNat_lt.mp hlt))
  plain h := by
    rw [mncText_of_le h]
    exact spelled_of_le (UInt16.le_iff_toNat_le.mp h)
  three_iff := mncText_eq_three_iff
  two_iff := mncText_eq_two_iff
  settled _ htwo hthree := (mncText_congr htwo hthree).symm

/-! ## Profiles -/

/-- **The second profile is the first one with its texts filled** from its integer codes. -/
structure Filled (known : List String) (p q : Profile) : Prop where
  waits : p.mcc = "" ∨ p.mnc = ""
  codes : ∃ mcc mnc, p.legacyMcc = some mcc ∧ p.legacyMnc = some mnc ∧
    q.mcc = mccText mcc ∧ q.mnc = mncText known mcc mnc
  numeric : q.numeric = if p.numeric = "" then q.mcc ++ q.mnc else p.numeric
  rest : q = { p with mcc := q.mcc, mnc := q.mnc, numeric := q.numeric }

/-- **The modern form of a profile.** -/
theorem pending_eq_some_iff : pending known p = some q ↔ Filled known p q := by
  constructor
  · intro h
    have hwaits : ¬((p.mcc ≠ "" ∧ p.mnc ≠ "") ∨ p.legacyMcc = none ∨ p.legacyMnc = none) := by
      have hsome : pending known p ≠ none := by
        rw [h]
        exact Option.some_ne_none q
      exact mt pending_eq_none_iff.mpr hsome
    obtain ⟨htexts, -⟩ := not_or.mp hwaits
    unfold pending at h
    split at h
    · cases h
    · split at h
      · rename_i mcc mnc hmcc hmnc
        cases h
        refine ⟨?_, ⟨mcc, mnc, hmcc, hmnc, rfl, rfl⟩, ?_, rfl⟩
        · simpa only [ne_eq, Classical.not_and_iff_not_or_not, Classical.not_not] using htexts
        · simp only [String.isEmpty_iff]
      · cases h
  · rintro ⟨hwaits, ⟨mcc, mnc, hmcc, hmnc, hqmcc, hqmnc⟩, hnumeric, hrest⟩
    have hfill : (!p.mcc.isEmpty && !p.mnc.isEmpty) = false := by
      rcases hwaits with h | h <;> simp [h]
    unfold pending
    rw [hfill, hmcc, hmnc]
    rw [hrest, hnumeric, hqmcc, hqmnc]
    simp only [Bool.false_eq_true, if_false, String.isEmpty_iff, hmcc, hmnc]

/-- The texts that were filled spell the integer codes. -/
theorem Filled.spells (h : Filled known p q) : ∃ mcc mnc, p.legacyMcc = some mcc ∧
    p.legacyMnc = some mnc ∧ Spells q.mcc mcc.toNat ∧ Spells q.mnc mnc.toNat := by
  obtain ⟨mcc, mnc, hmcc, hmnc, hqmcc, hqmnc⟩ := h.codes
  refine ⟨mcc, mnc, hmcc, hmnc, ?_, ?_⟩
  · rw [hqmcc]
    exact spells_spelled (by decide) mcc
  · rw [hqmnc]
    exact (respelled_mncText known mcc mnc).spells

/-- Modern form is final, whatever operators become known. -/
theorem pending_of_filled (h : Filled known p q) (known' : List String) : pending known' q = none :=
  pending_eq_none_iff.mpr (Or.inl (texts_of_pending (pending_eq_some_iff.mpr h)))

/-- **Integer codes come back as texts that spell them**, and once only. -/
theorem codes_respelled (known : List String) :
    (∀ (width : Nat) (code : UInt16), 0 < width → Spells (spelled width code) code.toNat ∧
      (spelled width code).length = max width (toString code.toNat).length) ∧
    (∀ mcc mnc : UInt16, Respelled known mcc mnc (mncText known mcc mnc)) ∧
    (∀ p q : Profile, pending known p = some q ↔ Filled known p q) ∧
    ∀ p q : Profile, pending known p = some q →
      (∃ mcc mnc, p.legacyMcc = some mcc ∧ p.legacyMnc = some mnc ∧
        Spells q.mcc mcc.toNat ∧ Spells q.mnc mnc.toNat) ∧
      ∀ known' : List String, pending known' q = none := by
  refine ⟨fun width code hw => ⟨spells_spelled hw code, length_spelled width code⟩,
    respelled_mncText known, fun _ _ => pending_eq_some_iff, fun p q h => ?_⟩
  have hfilled : Filled known p q := pending_eq_some_iff.mp h
  exact ⟨hfilled.spells, pending_of_filled hfilled⟩

/-- A country code is there already, in another spelling, and an operator is known with two digits. -/
theorem codes_respelled_halfFilled :
    let p : Profile := { apn := "web", mcc := "0310", legacyMcc := some 310, legacyMnc := some 5 }
    let q : Profile := { p with mcc := "310", mnc := "05", numeric := "31005" }
    (0 < 3 ∧ Spells (spelled 3 5) 5) ∧ ((5 : UInt16) < 100 ∧ ¬TakesThree ["31005"] 310 5 ∧
      mncText ["31005"] 310 5 = spelled 2 5) ∧ pending ["31005"] p = some q ∧
      ∀ known' : List String, pending known' q = none := by
  intro p q
  obtain ⟨hspelled, hcodes, -, hforms⟩ := codes_respelled ["31005"]
  have hpending : pending ["31005"] p = some q := by decide
  have hnot : ¬TakesThree ["31005"] 310 5 := by
    unfold TakesThree
    decide
  exact ⟨⟨by decide, (hspelled 3 5 (by decide)).1⟩, ⟨by decide, hnot,
    ((hcodes 310 5).two_iff (by decide)).mpr hnot⟩, hpending, (hforms p q hpending).2⟩

end LegacyCodes

end ApnRegistry
