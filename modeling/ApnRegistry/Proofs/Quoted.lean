import ApnRegistry.Json.Quoted

/-!
# Written texts read back

A written text is the characters one after the other, each as it is or as an escape (`escapeChar`). So the
reader need only be followed through one character, and what it makes of the rest does not matter
(`unescape_escapeChar`, `scanQuoted_escapeChar`).

Results:
* `Json.unescape_escape`, `Json.Quoted.text?_ofText`: the text that was written is read.
* `Json.scanQuoted_escape`: a written text ends at its closing quote.
* `Json.Quoted.ofText_inj`: different texts are written differently.
-/

namespace ApnRegistry.Json

/-- How a character is written: as it is, by a letter, or by its number. -/
inductive Spelling (c : Char) : Prop
  | plain (quote : c ≠ '"') (backslash : c ≠ '\\') (printable : ¬c.toNat < 0x20)
      (written : escapeChar c = [c])
  | letter (e : Char) (other : e ≠ 'u') (meant : escaped? e = some c)
      (written : escapeChar c = ['\\', e])
  | number (control : c.toNat < 0x20)
      (written : escapeChar c = ['\\', 'u', '0', '0', hexDigit (c.toNat / 16), hexDigit (c.toNat % 16)])

theorem spelling (c : Char) : Spelling c := by
  by_cases hquote : c = '"'
  · subst hquote
    exact .letter '"' (by decide) rfl rfl
  by_cases hbackslash : c = '\\'
  · subst hbackslash
    exact .letter '\\' (by decide) rfl rfl
  by_cases hb : c = '\x08'
  · subst hb
    exact .letter 'b' (by decide) rfl rfl
  by_cases hf : c = '\x0c'
  · subst hf
    exact .letter 'f' (by decide) rfl rfl
  by_cases hn : c = '\n'
  · subst hn
    exact .letter 'n' (by decide) rfl rfl
  by_cases hr : c = '\r'
  · subst hr
    exact .letter 'r' (by decide) rfl rfl
  by_cases ht : c = '\t'
  · subst ht
    exact .letter 't' (by decide) rfl rfl
  by_cases hcontrol : c.toNat < 0x20
  · exact .number hcontrol (by
      simp only [escapeChar, if_neg hquote, if_neg hbackslash, if_neg hb, if_neg hf, if_neg hn, if_neg hr,
        if_neg ht, if_pos hcontrol])
  · exact .plain hquote hbackslash hcontrol (by
      simp only [escapeChar, if_neg hquote, if_neg hbackslash, if_neg hb, if_neg hf, if_neg hn, if_neg hr,
        if_neg ht, if_neg hcontrol])

/-- The four digits of a control character spell its number. -/
theorem hexUnit?_control : ∀ n < 0x20,
    hexUnit? '0' '0' (hexDigit (n / 16)) (hexDigit (n % 16)) = some n ∧ isLeading n = false ∧
      isTrailing n = false := by
  decide

/-- The reader takes up one written character. -/
theorem unescape_escapeChar (c : Char) (rest : List Char) :
    unescape (escapeChar c ++ rest) = (unescape rest).map (c :: ·) := by
  cases spelling c with
  | plain quote backslash printable written =>
    rw [written, List.singleton_append,
      unescape.eq_4 c rest (fun _ _ _ _ _ h _ => backslash h) (fun _ _ h _ => backslash h),
      if_neg backslash]
  | letter e other meant written =>
    rw [written, List.cons_append, List.singleton_append,
      unescape.eq_3 e rest (fun _ _ _ _ _ h _ => other h), meant]
  | number control written =>
    obtain ⟨hunit, hleading, htrailing⟩ := hexUnit?_control c.toNat control
    rw [written]
    simp only [List.cons_append, List.nil_append, unescape.eq_2, hunit, hleading, htrailing,
      Bool.false_eq_true, if_false, Char.ofNat_toNat]

/-- **A written text reads back.** -/
theorem unescape_escape (cs : List Char) : unescape (escape cs) = some cs := by
  induction cs with
  | nil => rfl
  | cons c cs ih =>
    rw [escape, List.flatMap_cons, unescape_escapeChar]
    rw [escape] at ih
    rw [ih]
    rfl

/-- The scanner passes one written character. -/
theorem scanQuoted_escapeChar (c : Char) (rest : List Char) :
    scanQuoted (escapeChar c ++ rest) =
      (scanQuoted rest).map fun (body, rest) => (escapeChar c ++ body, rest) := by
  cases spelling c with
  | plain quote backslash printable written =>
    rw [written, List.singleton_append, scanQuoted.eq_5 c rest quote
      (fun _ _ _ _ _ h _ => backslash h) (fun _ _ h _ => backslash h), if_neg (by simp [backslash, printable])]
    rfl
  | letter e other meant written =>
    rw [written, List.cons_append, List.singleton_append,
      scanQuoted.eq_4 e rest (fun _ _ _ _ _ h _ => other h), meant]
    rfl
  | number control written =>
    obtain ⟨hunit, -, -⟩ := hexUnit?_control c.toNat control
    rw [written]
    simp only [List.cons_append, List.nil_append, scanQuoted.eq_3, hunit]

/-- **A written text ends at its closing quote.** -/
theorem scanQuoted_escape (cs rest : List Char) :
    scanQuoted (escape cs ++ '"' :: rest) = some (escape cs, rest) := by
  induction cs with
  | nil => exact scanQuoted.eq_2 rest
  | cons c cs ih =>
    rw [escape, List.flatMap_cons, List.append_assoc, scanQuoted_escapeChar]
    rw [escape] at ih
    rw [ih]
    rfl

namespace Quoted

@[simp] theorem text?_ofText (s : String) : (ofText s).text? = some s := by
  rw [text?, ofText, unescape_escape, Option.map_some, String.ofList_toList]

theorem ofText_inj {a b : String} : ofText a = ofText b ↔ a = b := by
  refine ⟨fun h => ?_, congrArg ofText⟩
  rw [← Option.some.injEq, ← text?_ofText, h, text?_ofText]

end Quoted

end ApnRegistry.Json
