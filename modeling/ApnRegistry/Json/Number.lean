import ApnRegistry.Json.Double
import ApnRegistry.Text.Decimal

/-!
# JSON numbers

A number is an integer literal or any other one (`Number`). Only the former can be read into an
integer field; a literal with a fraction or an exponent cannot, not even if its value is whole, and
neither can minus zero.

Where numbers of any form are read, they are worked out in doubles, which fails for those that grow
too large on the way (`Number.isFinite`). Roundings on the way add up, so near the largest double a
literal can fail although a double is next to it, and the other way round.
-/

namespace ApnRegistry.Json

/-- A number as it was written. -/
inductive Number where
  /-- Digits only, with or without a sign. -/
  | int (n : Int)
  /-- The magnitude `mantissa` · 10 ^ `exponent`, of either sign. -/
  | real (mantissa : Nat) (exponent : Int)
  deriving DecidableEq, Inhabited

namespace Number

/-- The leading digits of `n`, as many as a word of 64 bits holds, and how many digits follow. -/
def leading (n : Nat) : Nat × Nat :=
  if n < UInt64.size then (n, 0)
  else
    let (word, rest) := leading (n / 10)
    (word, rest + 1)
termination_by n
decreasing_by
  have : 0 < UInt64.size := by decide
  omega

/-- The magnitude `mantissa` · 10 ^ `exponent` can be worked out in doubles: the leading digits are
multiplied by the power of ten, each of the two as the double next to it. A power of ten above
10 ^ 308 is no double. -/
def fitsDouble (mantissa : Nat) (exponent : Int) : Bool :=
  let (word, rest) := leading mantissa
  match exponent + rest with
  | .negSucc _ => true
  | .ofNat e =>
    word == 0 ||
      (decide (e ≤ 308) &&
        decide (Double.nearest word * Double.nearest (Nat.pow 10 e) < Double.overflow))

/-- The number can be worked out in doubles. -/
def isFinite : Number → Bool
  | int n => fitsDouble n.natAbs 0
  | real mantissa exponent => fitsDouble mantissa exponent

theorem leading_of_lt {n : Nat} (h : n < UInt64.size) : leading n = (n, 0) := by
  rw [leading, if_pos h]

/-- Every integer that a word of 64 bits holds fits. -/
theorem isFinite_int {n : Int} (h : n.natAbs < UInt64.size) : (int n).isFinite = true := by
  have hs : Double.spacing n.natAbs ≤ UInt64.size := by
    by_cases hn : n.natAbs = 0
    · rw [hn]
      decide
    · have hlog : n.natAbs.log2 < 64 := (Nat.log2_lt hn).2 h
      rw [Double.spacing, Nat.one_shiftLeft]
      have hexp : n.natAbs.log2 + 1 - 53 ≤ 64 := by omega
      exact Nat.pow_le_pow_right (by decide) hexp
  have hd := (Double.nearest_near n.natAbs).1
  have hone : Double.nearest (Nat.pow 10 0) = 1 := by decide
  have hbig : 2 * UInt64.size < Double.overflow := by decide +kernel
  have hlt : Double.nearest n.natAbs * Double.nearest (Nat.pow 10 0) < Double.overflow := by
    rw [hone, Nat.mul_one]
    omega
  change fitsDouble n.natAbs 0 = true
  rw [fitsDouble, leading_of_lt h]
  change (n.natAbs == 0 || (true && decide (_ * _ < _))) = true
  rw [decide_eq_true hlt]
  exact Bool.or_true _

/-- The number as text. -/
def print : Number → List Char
  | int (.ofNat n) => Text.digits n
  | int (.negSucc n) => '-' :: Text.digits (n + 1)
  | real mantissa (.ofNat e) => Text.digits mantissa ++ 'e' :: Text.digits e
  | real mantissa (.negSucc e) => Text.digits mantissa ++ 'e' :: '-' :: Text.digits (e + 1)

end Number

/-- The digits at the front, of which there must be one, and what follows. -/
def scanDigits (cs : List Char) : Option (List Char × List Char) :=
  match cs.span Char.isDigit with
  | ([], _) => none
  | found => some found

/-- The digits of the whole part: a zero stands alone. -/
def scanWhole : List Char → Option (List Char × List Char)
  | '0' :: rest => if (rest.head?.any Char.isDigit) then none else some (['0'], rest)
  | cs => scanDigits cs

/-- The digits behind a point, if there is one. -/
def scanFraction : List Char → Option (List Char × List Char)
  | '.' :: rest => scanDigits rest
  | cs => some ([], cs)

/-- The exponent, if there is one. -/
def scanExponent : List Char → Option (Option Int × List Char)
  | c :: rest =>
    if c = 'e' || c = 'E' then
      let (negative, rest) := match rest with
        | '-' :: rest => (true, rest)
        | '+' :: rest => (false, rest)
        | rest => (false, rest)
      (scanDigits rest).map fun (ds, rest) =>
        let e : Int := Text.valueOf ds
        (some (if negative then -e else e), rest)
    else some (none, c :: rest)
  | [] => some (none, [])

/-- A number at the front, and what follows. -/
def scanNumber (cs : List Char) : Option (Number × List Char) := do
  let (negative, cs) := match cs with
    | '-' :: rest => (true, rest)
    | cs => (false, cs)
  let (whole, cs) ← scanWhole cs
  let (fraction, cs) ← scanFraction cs
  let (exponent, cs) ← scanExponent cs
  let value := Text.valueOf whole
  if fraction.isEmpty && exponent.isNone && !(negative && value == 0) then
    return (.int (if negative then -(value : Int) else value), cs)
  else
    return (.real (Text.valueOf (whole ++ fraction)) (exponent.getD 0 - fraction.length), cs)

end ApnRegistry.Json
