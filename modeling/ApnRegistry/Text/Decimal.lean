/-!
# Decimal numerals

`digits n` are the decimal digits of `n`, most significant first, and `valueOf` reads them back.
`padded w n` fills the digits up with zeros on the left until there are `w` of them; a longer
numeral is left as it is.
-/

namespace ApnRegistry.Text

/-- The decimal digits of `n`. -/
def digits (n : Nat) : List Char := Nat.toDigits 10 n

/-- The decimal digits of `n`, with zeros in front up to `width` digits. -/
def padded (width n : Nat) : List Char :=
  List.replicate (width - (digits n).length) '0' ++ digits n

/-- The number that a run of decimal digits spells. -/
def valueOf (ds : List Char) : Nat := Nat.ofDigitChars 10 ds 0

/-- What is written reads back. -/
@[simp] theorem valueOf_digits (n : Nat) : valueOf (digits n) = n :=
  Nat.ofDigitChars_toDigits (by decide) (by decide)

theorem length_padded (width n : Nat) :
    (padded width n).length = max width (digits n).length := by
  simp only [padded, List.length_append, List.length_replicate]
  omega

end ApnRegistry.Text
