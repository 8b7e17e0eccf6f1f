import ApnRegistry.Proofs.ServiceTypes

/-!
# The algebra of unions

A union that `*` does not absorb lists the types of both texts, one after the other, without those that
repeat an earlier one (`distinct`). Types that are entered into a list one by one may be freed of
repetitions first (`foldl_add_distinct`), so it does not matter in which order three texts are united, and
what a union lists already can be united with it again.

Results:
* `tokens_union_eq`, `join_eq_intercalate`: the types of a union, and its text.
* `union_assoc`: three texts.
* `union_eq_self`: texts that a union has absorbed.
* `union_laws`: all laws together.
-/

namespace ApnRegistry

namespace ServiceTypes

variable {type other : List Char} {types more : List (List Char)} {a b c : String}

/-- The types without those that repeat an earlier one, ASCII case aside. -/
def distinct (types : List (List Char)) : List (List Char) := types.eraseDupsBy Text.sameCaseless

/-- One of the types is the given one, ASCII case aside. -/
def Repeated (types : List (List Char)) (type : List Char) : Prop :=
  types.any (Text.sameCaseless type) = true

/-! ## Entering types one by one -/

theorem repeated_iff : Repeated types type ↔ ∃ other ∈ types, Text.lower type = Text.lower other := by
  simp only [Repeated, List.any_eq_true, Text.sameCaseless_iff]

theorem repeated_of_mem (h : type ∈ types) : Repeated types type := repeated_iff.mpr ⟨type, h, rfl⟩

theorem Repeated.of_lower_eq (h : Repeated types type) (hlower : Text.lower other = Text.lower type) :
    Repeated types other := by
  obtain ⟨twin, hm, heq⟩ := repeated_iff.mp h
  exact repeated_iff.mpr ⟨twin, hm, hlower.trans heq⟩

theorem add_of_repeated (h : Repeated types type) : add types type = types := if_pos h

theorem add_of_not_repeated (h : ¬Repeated types type) : add types type = types ++ [type] := if_neg h

theorem repeated_add (types : List (List Char)) (type : List Char) : Repeated (add types type) type := by
  by_cases h : Repeated types type
  · rwa [add_of_repeated h]
  · rw [add_of_not_repeated h]
    exact repeated_of_mem (List.mem_append_right types List.mem_cons_self)

theorem Repeated.add (h : Repeated types type) (next : List Char) : Repeated (add types next) type := by
  by_cases hn : Repeated types next
  · rwa [add_of_repeated hn]
  · rw [add_of_not_repeated hn]
    obtain ⟨twin, hm, heq⟩ := repeated_iff.mp h
    exact repeated_iff.mpr ⟨twin, List.mem_append_left _ hm, heq⟩

/-- Types that are all there already change nothing. -/
theorem foldl_add_of_repeated (h : ∀ type ∈ more, Repeated types type) : more.foldl add types = types := by
  induction more with
  | nil => rfl
  | cons next more ih =>
    obtain ⟨hnext, hmore⟩ := List.forall_mem_cons.mp h
    rw [List.foldl_cons, add_of_repeated hnext, ih hmore]

/-- The repetitions of a type that is there need not be entered. -/
theorem foldl_add_filter (h : Repeated types type) :
    (more.filter fun t => Text.sameCaseless t type = false).foldl add types = more.foldl add types := by
  induction more generalizing types with
  | nil => rfl
  | cons next more ih =>
    rw [List.filter_cons, List.foldl_cons]
    by_cases hsame : Text.lower next = Text.lower type
    · rw [if_neg (by simpa using hsame), add_of_repeated (h.of_lower_eq hsame)]
      exact ih h
    · rw [if_pos (by simpa [Bool.eq_false_iff] using hsame), List.foldl_cons]
      exact ih (h.add next)

/-- Every type that was entered is there. -/
theorem repeated_foldl_add (h : Repeated types type ∨ type ∈ more) :
    Repeated (more.foldl add types) type := by
  induction more generalizing types with
  | nil => exact h.resolve_right List.not_mem_nil
  | cons next more ih =>
    refine ih ?_
    rcases h with h | h
    · exact Or.inl (h.add next)
    · rcases List.mem_cons.mp h with rfl | h
      · exact Or.inl (repeated_add types type)
      · exact Or.inr h

/-! ## Lists without repetitions -/

theorem distinct_cons (type : List Char) (types : List (List Char)) : distinct (type :: types) =
    type :: distinct (types.filter fun t => Text.sameCaseless t type = false) :=
  List.eraseDupsBy_cons

/-- **Only the first of equal types counts** when types are entered. -/
theorem foldl_add_distinct (types : List (List Char)) : ∀ more : List (List Char),
    (distinct more).foldl add types = more.foldl add types
  | [] => rfl
  | next :: more => by
    -- what is left to enter is the rest without its repetitions of `next`, so the length decreases
    have hshorter := List.length_filter_le (fun t => Text.sameCaseless t next = false) more
    rw [distinct_cons, List.foldl_cons, List.foldl_cons,
      foldl_add_distinct (add types next) (more.filter _), foldl_add_filter (repeated_add types next)]
termination_by more => more.length
decreasing_by simp only [List.length_cons]; omega

theorem eraseDupsBy_loop (types : List (List Char)) : ∀ seen : List (List Char),
    List.eraseDupsBy.loop Text.sameCaseless types seen = types.foldl add seen.reverse := by
  induction types with
  | nil => exact fun seen => rfl
  | cons type types ih =>
    intro seen
    rw [List.eraseDupsBy.loop, List.foldl_cons, add, List.any_reverse]
    cases seen.any (Text.sameCaseless type) with
    | true => exact ih seen
    | false =>
      rw [if_neg Bool.false_ne_true, ← List.reverse_cons]
      exact ih (type :: seen)

/-- Types that are entered into an empty list lose their repetitions. -/
theorem foldl_add_nil (types : List (List Char)) : types.foldl add [] = distinct types :=
  (eraseDupsBy_loop types []).symm

theorem distinct_append (types more : List (List Char)) :
    distinct (types ++ more) = more.foldl add (distinct types) := by
  rw [← foldl_add_nil, List.foldl_append, foldl_add_nil]

/-- A list without repetitions keeps all of its types. -/
theorem distinct_distinct (types : List (List Char)) : distinct (distinct types) = distinct types := by
  rw [← foldl_add_nil (distinct types), foldl_add_distinct, foldl_add_nil]

theorem distinct_append_distinct (types more : List (List Char)) :
    distinct (types ++ distinct more) = distinct (types ++ more) := by
  rw [distinct_append, foldl_add_distinct, ← distinct_append]

theorem distinct_distinct_append (types more : List (List Char)) :
    distinct (distinct types ++ more) = distinct (types ++ more) := by
  rw [distinct_append, distinct_distinct, ← distinct_append]

/-- Types that repeat those before them are left out. -/
theorem distinct_append_of_repeated (h : ∀ type ∈ more, Repeated (distinct types) type) :
    distinct (types ++ more) = distinct types := by
  rw [distinct_append, foldl_add_of_repeated h]

theorem repeated_distinct (h : type ∈ types) : Repeated (distinct types) type := by
  rw [← foldl_add_nil]
  exact repeated_foldl_add (Or.inr h)

theorem mem_of_mem_distinct (h : type ∈ distinct types) : type ∈ types := by
  rw [← foldl_add_nil] at h
  exact mem_of_mem_foldl_add h

/-! ## Unions -/

/-- The text that lists the types has commas between them, and nothing else. -/
theorem join_eq_intercalate (types : List (List Char)) :
    join types = ",".intercalate (types.map String.ofList) := by
  rw [← String.toList_inj, join, String.toList_ofList, String.toList_intercalate, List.map_map]
  simp only [Function.comp_def, String.toList_ofList, List.map_id']
  rfl

theorem union_eq_join (h : wildcard ∉ tokens a ++ tokens b) :
    union a b = join (distinct (tokens a ++ tokens b)) := by
  rw [union, if_neg h, foldl_add_nil]

theorem tokens_union_eq (h : wildcard ∉ tokens a ++ tokens b) :
    tokens (union a b) = distinct (tokens a ++ tokens b) := by
  rw [tokens_union h, foldl_add_nil]

/-- A union names `*` iff one of its texts does. -/
theorem wildcard_mem_tokens_union :
    wildcard ∈ tokens (union a b) ↔ wildcard ∈ tokens a ++ tokens b := by
  by_cases h : wildcard ∈ tokens a ++ tokens b
  · rw [tokens_union_of_wildcard h]
    exact iff_of_true List.mem_cons_self h
  · rw [tokens_union_eq h]
    exact iff_of_false (mt mem_of_mem_distinct h) h

/-- **A union is `*`** iff one of its texts names it. -/
theorem union_eq_wildcard_iff :
    union a b = "*" ↔ wildcard ∈ tokens a ∨ wildcard ∈ tokens b := by
  have hstar : "*" = String.ofList wildcard := rfl
  rw [← List.mem_append, hstar]
  refine ⟨fun h => wildcard_mem_tokens_union.mp ?_, union_of_wildcard⟩
  have hjoin : union a b = join [wildcard] := h
  rw [hjoin, tokens_join (List.forall_mem_singleton.mpr isListed_wildcard)]
  exact List.mem_cons_self

/-- **Three texts** may be united in either order. -/
theorem union_assoc (a b c : String) : union (union a b) c = union a (union b c) := by
  have hleft : wildcard ∈ tokens (union a b) ++ tokens c ↔
      wildcard ∈ tokens a ++ tokens b ++ tokens c := by
    rw [List.mem_append, wildcard_mem_tokens_union, ← List.mem_append]
  have hright : wildcard ∈ tokens a ++ tokens (union b c) ↔
      wildcard ∈ tokens a ++ tokens b ++ tokens c := by
    rw [List.mem_append, wildcard_mem_tokens_union, ← List.mem_append, ← List.append_assoc]
  by_cases h : wildcard ∈ tokens a ++ tokens b ++ tokens c
  · rw [union_of_wildcard (hleft.mpr h), union_of_wildcard (hright.mpr h)]
  · have hab : wildcard ∉ tokens a ++ tokens b := fun hm => h (List.mem_append_left _ hm)
    have hbc : wildcard ∉ tokens b ++ tokens c := fun hm => by
      rw [List.append_assoc] at h
      exact h (List.mem_append_right _ hm)
    rw [union_eq_join (mt hleft.mp h), union_eq_join (mt hright.mp h), tokens_union_eq hab,
      tokens_union_eq hbc, distinct_distinct_append, distinct_append_distinct, List.append_assoc]

/-- A union is the text of its types. -/
theorem join_tokens_union (a b : String) : join (tokens (union a b)) = union a b := by
  by_cases h : wildcard ∈ tokens a ++ tokens b
  · rw [tokens_union_of_wildcard h, union_of_wildcard h]
    rfl
  · rw [tokens_union_eq h, union_eq_join h]

theorem distinct_tokens_union (a b : String) :
    distinct (tokens (union a b)) = tokens (union a b) := by
  by_cases h : wildcard ∈ tokens a ++ tokens b
  · rw [tokens_union_of_wildcard h]
    rfl
  · rw [tokens_union_eq h, distinct_distinct]

/-- **What a union lists already** adds nothing to it. -/
theorem union_eq_self (h : wildcard ∉ tokens (union a b) →
    ∀ type ∈ tokens c, Repeated (tokens (union a b)) type) : union (union a b) c = union a b := by
  by_cases hw : wildcard ∈ tokens (union a b)
  · rw [union_of_wildcard (List.mem_append_left _ hw), union_of_wildcard (wildcard_mem_tokens_union.mp hw)]
  · have hc := h hw
    -- `*` cannot come from `c`: it would repeat a type of the union, and only `*` is `*` up to case
    have hnot : wildcard ∉ tokens (union a b) ++ tokens c := by
      refine fun hm => (List.mem_append.mp hm).elim hw fun hm => hw ?_
      obtain ⟨twin, ht, heq⟩ := repeated_iff.mp (hc wildcard hm)
      rwa [lower_eq_wildcard.mp heq.symm] at ht
    rw [union_eq_join hnot, distinct_append_of_repeated, distinct_tokens_union, join_tokens_union]
    rwa [distinct_tokens_union]

/-- A text that went into a union adds nothing to it. -/
theorem repeated_tokens_union (hw : wildcard ∉ tokens (union a b))
    (h : type ∈ tokens a ++ tokens b) : Repeated (tokens (union a b)) type := by
  rw [tokens_union_eq (mt wildcard_mem_tokens_union.mpr hw)]
  exact repeated_distinct h

theorem tokens_empty : tokens "" = [] := rfl

theorem empty_union_union (a b : String) : union "" (union a b) = union a b := by
  by_cases hw : wildcard ∈ tokens (union a b)
  · rw [union_of_wildcard (List.mem_append_right _ hw), union_of_wildcard (wildcard_mem_tokens_union.mp hw)]
  · have hnot : wildcard ∉ tokens "" ++ tokens (union a b) := by
      rwa [tokens_empty, List.nil_append]
    rw [union_eq_join hnot, tokens_empty, List.nil_append, distinct_tokens_union, join_tokens_union]

/-- **The laws of unions.** -/
theorem union_laws (a b c : String) :
    (union a b = "*" ↔ wildcard ∈ tokens a ∨ wildcard ∈ tokens b) ∧
    (¬(wildcard ∈ tokens a ∨ wildcard ∈ tokens b) →
      tokens (union a b) = distinct (tokens a ++ tokens b) ∧
      union a b = ",".intercalate ((tokens (union a b)).map String.ofList)) ∧
    union (union a b) c = union a (union b c) ∧
    union (union a b) (union a b) = union a b ∧
    union (union a b) "" = union a b ∧ union "" (union a b) = union a b ∧
    union (union a b) a = union a b ∧ union (union a b) b = union a b := by
  refine ⟨union_eq_wildcard_iff, fun h => ?_, union_assoc a b c, ?_, ?_, empty_union_union a b, ?_, ?_⟩
  · have hnot : wildcard ∉ tokens a ++ tokens b := mt List.mem_append.mp h
    exact ⟨tokens_union_eq hnot, by rw [← join_eq_intercalate, join_tokens_union]⟩
  · exact union_eq_self fun _ _ ht => repeated_of_mem ht
  · refine union_eq_self fun _ type ht => ?_
    rw [tokens_empty] at ht
    cases ht
  · exact union_eq_self fun hw _ ht => repeated_tokens_union hw (List.mem_append_left _ ht)
  · exact union_eq_self fun hw _ ht => repeated_tokens_union hw (List.mem_append_right _ ht)

/-- Blanks of all kinds, an empty type, and a type that comes again in capitals. -/
theorem union_laws_blanks :
    ¬(wildcard ∈ tokens "Default,\u00a0, mms" ∨ wildcard ∈ tokens "DEFAULT,\u3000supl") ∧
      union "Default,\u00a0, mms" "DEFAULT,\u3000supl" = "Default,mms,supl" := by
  have hnot : ¬(wildcard ∈ tokens "Default,\u00a0, mms" ∨
      wildcard ∈ tokens "DEFAULT,\u3000supl") := by decide
  obtain ⟨htypes, htext⟩ := (union_laws "Default,\u00a0, mms" "DEFAULT,\u3000supl" "").2.1 hnot
  refine ⟨hnot, htext.trans ?_⟩
  rw [htypes]
  decide

end ServiceTypes

end ApnRegistry
