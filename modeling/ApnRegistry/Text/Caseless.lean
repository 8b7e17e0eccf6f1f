/-!
# Comparison up to ASCII case

Only the letters `A` to `Z` are folded; every other character stands for itself, so a text keeps
its length in bytes when it is folded.
-/

namespace ApnRegistry.Text

/-- The characters with `A` to `Z` made lower case. -/
def lower (cs : List Char) : List Char := cs.map Char.toLower

/-- The two texts are the same once `A` to `Z` are made lower case. -/
def sameCaseless (a b : List Char) : Bool := lower a == lower b

@[simp] theorem sameCaseless_iff {a b : List Char} :
    sameCaseless a b = true ↔ lower a = lower b := by simp [sameCaseless]

@[simp] theorem sameCaseless_refl (a : List Char) : sameCaseless a a = true := by simp

end ApnRegistry.Text
