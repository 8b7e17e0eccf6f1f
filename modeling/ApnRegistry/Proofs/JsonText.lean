import ApnRegistry.Json.Printer
import ApnRegistry.Json.Reader
import ApnRegistry.Proofs.Quoted
import Mathlib.Data.List.TakeDrop

/-!
# Printed documents parse

What follows a value in a printed document is nothing, a comma or a closing bracket (`Json.Follows`). None
of these goes on with a numeral, and so the parser ends each value where the printer did. Each step of the
parser into the text uses up fuel, of which there is twice as much as there are characters.

Results:
* `Json.scanNumber_print`: numbers.
* `Json.parse?_compact`: documents, if their strings can be found again (`Json.IsWritten`).
-/

namespace ApnRegistry

namespace Text

variable {n : Nat} {c : Char}

theorem isDigit_of_mem_digits (h : c ∈ digits n) : c.isDigit = true :=
  Nat.isDigit_of_mem_toDigits (by decide) (by decide) h

/-- Only zero is written with a leading zero. -/
theorem exists_digits (hn : n ≠ 0) : ∃ d ds, digits n = d :: ds ∧ d ≠ '0' := by
  induction n using Nat.strongRecOn with
  | _ n ih =>
    by_cases hlt : n < 10
    · have hdigit : ∀ n < 10, n ≠ 0 → n.digitChar ≠ '0' := by decide
      exact ⟨n.digitChar, [], Nat.toDigits_of_lt_base hlt, hdigit n hlt hn⟩
    · obtain ⟨d, ds, hd, hne⟩ := ih (n / 10) (by omega) (by omega)
      refine ⟨d, ds ++ [(n % 10).digitChar], ?_, hne⟩
      rw [digits, Nat.toDigits_of_base_le (by decide) (by omega)]
      rw [digits] at hd
      rw [hd]
      rfl

end Text

namespace Json

variable {n : Nat} {rest cs : List Char}

/-! ## Numbers -/

/-- Nothing comes, or a comma or a closing bracket. -/
def Follows (rest : List Char) : Prop := ∀ c ∈ rest.head?, c = ',' ∨ c = ']' ∨ c = '\x7d'

/-- No numeral goes on here. -/
def Ends (rest : List Char) : Prop := ∀ c ∈ rest.head?, c.isDigit = false ∧ c ≠ '.'

theorem Follows.ends (h : Follows rest) : Ends rest := by
  intro c hc
  rcases h c hc with rfl | rfl | rfl <;> decide

theorem scanDigits_digits (h : Ends rest) : scanDigits (Text.digits n ++ rest) =
    some (Text.digits n, rest) := by
  have hspan : (Text.digits n ++ rest).span Char.isDigit = (Text.digits n, rest) := by
    rw [List.span_eq_takeWhile_dropWhile,
      List.takeWhile_append_of_pos fun c hc => Text.isDigit_of_mem_digits hc,
      List.dropWhile_append_of_pos fun c hc => Text.isDigit_of_mem_digits hc]
    cases rest with
    | nil => simp
    | cons c rest =>
      have hc : c.isDigit = false := (h c rfl).1
      simp [hc]
  have hne : Text.digits n ≠ [] := Nat.toDigits_ne_nil
  rw [scanDigits, hspan]
  split
  · rename_i heq
    exact absurd (Prod.mk.inj heq).1 hne
  · rfl

theorem scanWhole_digits (h : Ends rest) : scanWhole (Text.digits n ++ rest) =
    some (Text.digits n, rest) := by
  by_cases hn : n = 0
  · subst hn
    show scanWhole ('0' :: rest) = _
    rw [scanWhole.eq_1]
    have hrest : rest.head?.any Char.isDigit = false := by
      cases rest with
      | nil => rfl
      | cons c rest => exact (h c rfl).1
    rw [hrest]
    rfl
  · obtain ⟨d, ds, hd, hne⟩ := Text.exists_digits hn
    rw [scanWhole.eq_2]
    · exact scanDigits_digits h
    · rw [hd]
      rintro more heq
      exact hne (List.cons_eq_cons.mp heq).1

/-- A numeral starts with a digit. -/
theorem ne_of_digits {c : Char} (hc : c.isDigit = false) (more : List Char) :
    ∀ rest, Text.digits n ++ more ≠ c :: rest := by
  intro rest heq
  cases hd : Text.digits n with
  | nil => exact Nat.toDigits_ne_nil hd
  | cons d ds =>
    have hdigit := Text.isDigit_of_mem_digits (hd ▸ List.mem_cons_self : d ∈ Text.digits n)
    rw [hd] at heq
    rw [(List.cons_eq_cons.mp heq).1, hc] at hdigit
    cases hdigit

theorem scanFraction_of_ends (h : Ends rest) : scanFraction rest = some ([], rest) :=
  scanFraction.eq_2 rest fun more heq => by
    subst heq
    exact (h '.' rfl).2 rfl

theorem scanExponent_of_follows (h : Follows rest) : scanExponent rest = some (none, rest) := by
  cases rest with
  | nil => rfl
  | cons c rest =>
    unfold scanExponent
    refine if_neg ?_
    rcases h c rfl with rfl | rfl | rfl <;> decide

theorem ends_exponent (more : List Char) : Ends ('e' :: more) := by
  rintro c hc
  obtain rfl : 'e' = c := Option.some.inj hc
  decide

/-- **A printed number is scanned.** -/
theorem scanNumber_print (number : Number) (h : Follows rest) :
    scanNumber (number.print ++ rest) = some (number, rest) := by
  match number with
  | .int (.ofNat n) =>
    rw [Number.print, scanNumber.eq_2 _ (ne_of_digits (by decide) rest), scanWhole_digits h.ends]
    simp [scanFraction_of_ends h.ends, scanExponent_of_follows h]
  | .int (.negSucc n) =>
    rw [Number.print, List.cons_append, scanNumber.eq_1, scanWhole_digits h.ends]
    simp [scanFraction_of_ends h.ends, scanExponent_of_follows h]
    omega
  | .real mantissa (.ofNat e) =>
    have hexponent : scanExponent ('e' :: (Text.digits e ++ rest)) = some (some (e : Int), rest) := by
      rw [scanExponent.eq_3 'e' _ (ne_of_digits (by decide) rest) (ne_of_digits (by decide) rest),
        scanDigits_digits h.ends]
      simp
    rw [Number.print, List.append_assoc, List.cons_append,
      scanNumber.eq_2 _ (ne_of_digits (by decide) _), scanWhole_digits (ends_exponent _)]
    simp [scanFraction_of_ends (ends_exponent _), hexponent]
  | .real mantissa (.negSucc e) =>
    have hexponent : scanExponent ('e' :: '-' :: (Text.digits (e + 1) ++ rest)) =
        some (some (.negSucc e), rest) := by
      rw [scanExponent.eq_1, scanDigits_digits h.ends]
      simp
      omega
    rw [Number.print, List.append_assoc, List.cons_append, List.cons_append,
      scanNumber.eq_2 _ (ne_of_digits (by decide) _), scanWhole_digits (ends_exponent _)]
    simp [scanFraction_of_ends (ends_exponent _), hexponent]

/-! ## Documents -/

/-- The string ends at its closing quote, whatever follows. -/
def Quoted.Closes (q : Quoted) : Prop :=
  ∀ rest, scanQuoted (q.body ++ '"' :: rest) = some (q.body, rest)

theorem Quoted.closes_ofText (s : String) : (ofText s).Closes := scanQuoted_escape s.toList

mutual

/-- Every string of the document closes. -/
def IsWritten : Json → Prop
  | null | bool _ | num _ => True
  | str s => s.Closes
  | arr items => AreItemsWritten items
  | obj members => AreMembersWritten members

/-- Every item is written. -/
def AreItemsWritten : List Json → Prop
  | [] => True
  | item :: items => IsWritten item ∧ AreItemsWritten items

/-- Every name closes and every value is written. -/
def AreMembersWritten : List (Quoted × Json) → Prop
  | [] => True
  | (name, value) :: members => name.Closes ∧ IsWritten value ∧ AreMembersWritten members

end

theorem Quoted.toList_print (q : Quoted) : q.print.toList = '"' :: (q.body ++ ['"']) := by
  simp [Quoted.print]

theorem toList_compact_arr (items : List Json) : (compact (.arr items)).toList =
    '[' :: ((compactItems items).toList ++ [']']) := by
  simp [compact]

theorem toList_compact_obj (members : List (Quoted × Json)) : (compact (.obj members)).toList =
    '\x7b' :: ((compactMembers members).toList ++ ['\x7d']) := by
  simp [compact]

theorem toList_compactItems_cons (item next : Json) (items : List Json) :
    (compactItems (item :: next :: items)).toList =
      (compact item).toList ++ ',' :: (compactItems (next :: items)).toList := by
  simp [compactItems]

theorem toList_compactMembers_singleton (name : Quoted) (value : Json) :
    (compactMembers [(name, value)]).toList =
      '"' :: (name.body ++ '"' :: ':' :: (compact value).toList) := by
  simp [compactMembers, Quoted.print]

theorem toList_compactMembers_cons (name : Quoted) (value : Json) (next : Quoted × Json)
    (members : List (Quoted × Json)) : (compactMembers ((name, value) :: next :: members)).toList =
      '"' :: (name.body ++ '"' :: ':' :: ((compact value).toList ++
        ',' :: (compactMembers (next :: members)).toList)) := by
  simp [compactMembers, Quoted.print]

theorem skipGap_cons {c : Char} (h : isGap c = false) : skipGap (c :: cs) = c :: cs :=
  List.dropWhile_cons_of_neg (by simp [h])

/-- The character may start a numeral. -/
def StartsNumeral (c : Char) : Prop := c.isDigit = true ∨ c = '-'

theorem StartsNumeral.ne {c d : Char} (h : StartsNumeral c) (hd : d.isDigit = false)
    (hminus : d ≠ '-') : c ≠ d := by
  rintro rfl
  rcases h with h | h
  · exact absurd h (Bool.eq_false_iff.mp hd)
  · exact hminus h

theorem StartsNumeral.isGap {c : Char} (h : StartsNumeral c) : isGap c = false := by
  simp [Json.isGap, h.ne (d := ' '), h.ne (d := '\t'), h.ne (d := '\n'), h.ne (d := '\r')]

theorem exists_head_digits (n : Nat) (more : List Char) :
    ∃ c cs, Text.digits n ++ more = c :: cs ∧ StartsNumeral c := by
  cases hd : Text.digits n with
  | nil => exact absurd hd Nat.toDigits_ne_nil
  | cons d ds => exact ⟨d, _, rfl, Or.inl (Text.isDigit_of_mem_digits (hd ▸ List.mem_cons_self))⟩

theorem exists_head_print (number : Number) : ∃ c cs, number.print = c :: cs ∧ StartsNumeral c := by
  match number with
  | .int (.ofNat n) =>
    rw [Number.print, ← List.append_nil (Text.digits n)]
    exact exists_head_digits n []
  | .int (.negSucc n) => exact ⟨'-', _, rfl, Or.inr rfl⟩
  | .real mantissa (.ofNat e) => exact exists_head_digits mantissa _
  | .real mantissa (.negSucc e) => exact exists_head_digits mantissa _

/-- A numeral is scanned as one. -/
theorem scanValue_of_numeral {fuel : Nat} {c : Char} (h : StartsNumeral c) :
    scanValue (fuel + 1) (c :: cs) = (scanNumber (c :: cs)).map fun (n, rest) => (num n, rest) := by
  rw [scanValue, skipGap_cons h.isGap]
  split
  case h_7 => rfl
  all_goals
    rename_i heq
    exact absurd (List.cons_eq_cons.mp heq).1 (h.ne (by decide) (by decide))

/-- A printed value does not start with a gap, and not like the end of an array. -/
theorem exists_head_compact (j : Json) :
    ∃ c cs, (compact j).toList = c :: cs ∧ isGap c = false ∧ c ≠ ']' := by
  cases j with
  | null => exact ⟨'n', _, rfl, by decide⟩
  | bool b => cases b <;> exact ⟨_, _, rfl, by decide⟩
  | num n =>
    obtain ⟨c, cs, hprint, hc⟩ := exists_head_print n
    exact ⟨c, cs, String.toList_ofList.trans hprint, hc.isGap, hc.ne (by decide) (by decide)⟩
  | str s => exact ⟨'"', _, s.toList_print, by decide⟩
  | arr items => exact ⟨'[', _, toList_compact_arr items, by decide⟩
  | obj members => exact ⟨'\x7b', _, toList_compact_obj members, by decide⟩

theorem exists_head_compactItems (item : Json) (items : List Json) :
    ∃ c cs, (compactItems (item :: items)).toList = c :: cs ∧ isGap c = false ∧ c ≠ ']' := by
  obtain ⟨c, cs, hj, hc⟩ := exists_head_compact item
  cases items with
  | nil => exact ⟨c, cs, hj, hc⟩
  | cons next items =>
    rw [toList_compactItems_cons, hj]
    exact ⟨c, _, rfl, hc⟩

theorem exists_head_compactMembers (name : Quoted) (value : Json) (members : List (Quoted × Json)) :
    ∃ cs, (compactMembers ((name, value) :: members)).toList = '"' :: cs := by
  cases members with
  | nil => exact ⟨_, toList_compactMembers_singleton name value⟩
  | cons next members => exact ⟨_, toList_compactMembers_cons name value next members⟩

/-- An array that does not end at once has items. -/
theorem scanValue_arr {fuel : Nat} {item : Json} {items : List Json} {more : List Char}
    (hitems : scanItems fuel ((compactItems (item :: items)).toList ++ more) =
      some (item :: items, rest)) :
    scanValue (fuel + 1) ('[' :: ((compactItems (item :: items)).toList ++ more)) =
      some (arr (item :: items), rest) := by
  obtain ⟨c, cs, hhead, hgap, hclose⟩ := exists_head_compactItems item items
  rw [hhead, List.cons_append] at hitems ⊢
  rw [scanValue, skipGap_cons (by decide)]
  split
  case h_5 heq =>
    obtain ⟨-, rfl⟩ := List.cons_eq_cons.mp heq
    rw [skipGap_cons hgap]
    split
    · rename_i heq
      exact absurd (List.cons_eq_cons.mp heq).1 hclose
    · rw [hitems]
      rfl
  case h_7 hbracket _ => exact absurd rfl (hbracket _)
  all_goals
    rename_i heq
    exact absurd (List.cons_eq_cons.mp heq).1 (by decide)

/-- An object that does not end at once has members. -/
theorem scanValue_obj {fuel : Nat} {members : List (Quoted × Json)}
    (hmembers : scanMembers fuel ('"' :: cs) = some (members, rest)) :
    scanValue (fuel + 1) ('\x7b' :: '"' :: cs) = some (obj members, rest) := by
  rw [scanValue, skipGap_cons (by decide)]
  split
  case h_6 heq =>
    obtain ⟨-, rfl⟩ := List.cons_eq_cons.mp heq
    rw [skipGap_cons (by decide)]
    split
    · rename_i heq
      exact absurd (List.cons_eq_cons.mp heq).1 (by decide)
    · rw [hmembers]
      rfl
  case h_7 hbrace => exact absurd rfl (hbrace _)
  all_goals
    rename_i heq
    exact absurd (List.cons_eq_cons.mp heq).1 (by decide)

/-- A member is a string, a colon and a value. What comes then decides. -/
theorem scanMembers_member {fuel : Nat} {name : Quoted} {value : Json} {more after : List Char}
    (hname : name.Closes) (hvalue : scanValue fuel more = some (value, after)) :
    scanMembers (fuel + 1) ('"' :: (name.body ++ '"' :: ':' :: more)) =
      match skipGap after with
      | '\x7d' :: rest => some ([(name, value)], rest)
      | ',' :: rest =>
        (scanMembers fuel rest).map fun (members, rest) => ((name, value) :: members, rest)
      | _ => none := by
  rw [scanMembers, skipGap_cons (by decide)]
  split
  · rename_i heq
    obtain ⟨-, rfl⟩ := List.cons_eq_cons.mp heq
    rw [hname]
    dsimp only
    rw [skipGap_cons (by decide)]
    split
    · rename_i heq
      obtain ⟨-, rfl⟩ := List.cons_eq_cons.mp heq
      generalize scanValue fuel more = found at hvalue ⊢
      subst hvalue
      rfl
    · rename_i hcolon
      exact absurd rfl (hcolon more)
  · rename_i hquote
    exact absurd rfl (hquote _)

theorem follows_cons {c : Char} (h : c = ',' ∨ c = ']' ∨ c = '\x7d') (rest : List Char) :
    Follows (c :: rest) := by
  intro d hd
  obtain rfl : c = d := Option.some.inj hd
  exact h

mutual

/-- **A printed document is scanned**, whatever may follow it. -/
theorem scanValue_compact : ∀ (j : Json) {fuel : Nat} {rest : List Char}, j.IsWritten →
    2 * (compact j).toList.length ≤ fuel + 1 → Follows rest →
    scanValue fuel ((compact j).toList ++ rest) = some (j, rest)
  | j, 0, _, _, hfuel, _ => by
    obtain ⟨c, cs, hj, -⟩ := exists_head_compact j
    rw [hj, List.length_cons] at hfuel
    omega
  | .null, _ + 1, _, _, _, _ => rfl
  | .bool true, _ + 1, _, _, _, _ => rfl
  | .bool false, _ + 1, _, _, _, _ => rfl
  | .num n, fuel + 1, rest, _, _, hrest => by
    obtain ⟨c, cs, hprint, hc⟩ := exists_head_print n
    have hcompact : (compact (.num n)).toList = n.print := String.toList_ofList
    rw [hcompact, hprint, List.cons_append, scanValue_of_numeral hc, ← List.cons_append, ← hprint,
      scanNumber_print n hrest]
    rfl
  | .str s, fuel + 1, rest, hw, _, _ => by
    have hcompact : (compact (.str s)).toList = '"' :: (s.body ++ ['"']) := s.toList_print
    rw [hcompact, List.cons_append, List.append_assoc, List.singleton_append, scanValue,
      skipGap_cons (by decide)]
    show (scanQuoted _).map _ = _
    rw [IsWritten] at hw
    rw [hw rest]
    rfl
  | .arr [], _ + 1, _, _, _, _ => rfl
  | .arr (item :: items), fuel + 1, rest, hw, hfuel, _ => by
    rw [toList_compact_arr, List.length_cons, List.length_append, List.length_singleton] at hfuel
    rw [IsWritten] at hw
    rw [toList_compact_arr, List.cons_append, List.append_assoc, List.singleton_append]
    exact scanValue_arr (scanItems_compactItems item items hw (by omega))
  | .obj [], _ + 1, _, _, _, _ => rfl
  | .obj ((name, value) :: members), fuel + 1, rest, hw, hfuel, _ => by
    rw [toList_compact_obj, List.length_cons, List.length_append, List.length_singleton] at hfuel
    rw [IsWritten] at hw
    have hmembers : scanMembers fuel ((compactMembers ((name, value) :: members)).toList ++
        '\x7d' :: rest) = some ((name, value) :: members, rest) :=
      scanMembers_compactMembers name value members hw (by omega)
    obtain ⟨cs, hhead⟩ := exists_head_compactMembers name value members
    rw [hhead, List.cons_append] at hmembers
    rw [toList_compact_obj, hhead, List.cons_append, List.append_assoc, List.singleton_append,
      List.cons_append]
    exact scanValue_obj hmembers

theorem scanItems_compactItems : ∀ (item : Json) (items : List Json) {fuel : Nat} {rest : List Char},
    AreItemsWritten (item :: items) →
    2 * (compactItems (item :: items)).toList.length ≤ fuel →
    scanItems fuel ((compactItems (item :: items)).toList ++ ']' :: rest) = some (item :: items, rest)
  | item, items, 0, _, _, hfuel => by
    obtain ⟨c, cs, hhead, -⟩ := exists_head_compactItems item items
    rw [hhead, List.length_cons] at hfuel
    omega
  | item, [], fuel + 1, rest, hw, hfuel => by
    rw [AreItemsWritten] at hw
    have hitem : scanValue fuel ((compact item).toList ++ ']' :: rest) = some (item, ']' :: rest) :=
      scanValue_compact item hw.1 hfuel (follows_cons (by decide) rest)
    rw [compactItems, scanItems, hitem]
    rfl
  | item, next :: items, fuel + 1, rest, hw, hfuel => by
    rw [AreItemsWritten] at hw
    rw [toList_compactItems_cons, List.length_append, List.length_cons] at hfuel
    let more := (compactItems (next :: items)).toList ++ ']' :: rest
    have hitem : scanValue fuel ((compact item).toList ++ ',' :: more) = some (item, ',' :: more) :=
      scanValue_compact item hw.1 (by omega) (follows_cons (by decide) more)
    have hitems : scanItems fuel more = some (next :: items, rest) :=
      scanItems_compactItems next items hw.2 (by omega)
    rw [toList_compactItems_cons, List.append_assoc, List.cons_append, scanItems, hitem]
    show (scanItems fuel more).map _ = _
    rw [hitems]
    rfl

theorem scanMembers_compactMembers : ∀ (name : Quoted) (value : Json) (members : List (Quoted × Json))
    {fuel : Nat} {rest : List Char}, AreMembersWritten ((name, value) :: members) →
    2 * (compactMembers ((name, value) :: members)).toList.length ≤ fuel →
    scanMembers fuel ((compactMembers ((name, value) :: members)).toList ++ '\x7d' :: rest) =
      some ((name, value) :: members, rest)
  | name, value, members, 0, _, _, hfuel => by
    obtain ⟨cs, hhead⟩ := exists_head_compactMembers name value members
    rw [hhead, List.length_cons] at hfuel
    omega
  | name, value, [], fuel + 1, rest, hw, hfuel => by
    rw [AreMembersWritten] at hw
    rw [toList_compactMembers_singleton] at hfuel
    simp only [List.length_cons, List.length_append] at hfuel
    let more := (compact value).toList ++ '\x7d' :: rest
    have hvalue : scanValue fuel more = some (value, '\x7d' :: rest) :=
      scanValue_compact value hw.2.1 (by omega) (follows_cons (by decide) rest)
    have htext : (compactMembers [(name, value)]).toList ++ '\x7d' :: rest =
        '"' :: (name.body ++ '"' :: ':' :: more) := by
      simp [toList_compactMembers_singleton, more]
    rw [htext, scanMembers_member hw.1 hvalue]
    rfl
  | name, value, (name', value') :: members, fuel + 1, rest, hw, hfuel => by
    rw [AreMembersWritten] at hw
    rw [toList_compactMembers_cons] at hfuel
    simp only [List.length_cons, List.length_append] at hfuel
    let more := (compactMembers ((name', value') :: members)).toList ++ '\x7d' :: rest
    have hvalue : scanValue fuel ((compact value).toList ++ ',' :: more) = some (value, ',' :: more) :=
      scanValue_compact value hw.2.1 (by omega) (follows_cons (by decide) more)
    have hmembers : scanMembers fuel more = some ((name', value') :: members, rest) :=
      scanMembers_compactMembers name' value' members hw.2.2 (by omega)
    have htext : (compactMembers ((name, value) :: (name', value') :: members)).toList ++
        '\x7d' :: rest =
        '"' :: (name.body ++ '"' :: ':' :: ((compact value).toList ++ ',' :: more)) := by
      simp [toList_compactMembers_cons, more]
    rw [htext, scanMembers_member hw.1 hvalue]
    show (scanMembers fuel more).map _ = _
    rw [hmembers]
    rfl

end

/-- **A printed document parses.** -/
theorem parse?_compact {j : Json} (h : j.IsWritten) : parse? (compact j) = some j := by
  have hscan : scanValue (2 * (compact j).toList.length + 1) ((compact j).toList ++ []) =
      some (j, []) := scanValue_compact j h (by omega) nofun
  rw [List.append_nil] at hscan
  rw [parse?, hscan]
  rfl

end Json

end ApnRegistry
