import PhpPrefixer.Text

/-!
# Classes of characters given by ranges of code points

The Unicode properties used here are tables of closed ranges. ASCII is decided apart, so that the
tables are searched for other characters only.
-/

namespace PhpPrefixer.Text

/-- Whether the code point of `c` lies in one of the closed ranges. -/
def inRanges (ranges : List (Nat × Nat)) (c : Char) : Bool :=
  ranges.any fun (first, last) => first ≤ c.toNat && c.toNat ≤ last

/-- Whether `c` is an ASCII character. -/
def isAscii (c : Char) : Bool := c.toNat < 128

/-- A character is in some ranges if its code point is in one of them. -/
theorem inRanges_iff {ranges : List (Nat × Nat)} {c : Char} :
    inRanges ranges c = true ↔ ∃ r ∈ ranges, r.1 ≤ c.toNat ∧ c.toNat ≤ r.2 := by
  simp [inRanges]

end PhpPrefixer.Text
